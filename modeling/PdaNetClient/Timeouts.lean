import PdaNetClient.SessionLimit

/-!
# Timeouts under load

The loop takes 40 percent of the soft limit on descriptors as the limit on its sessions,
and shrinks every idle timeout with the share of that limit that is taken. The limit is
right for the values that the arithmetic carries without a wrap, and the timeouts are
right while the count stays near the limit.
-/
namespace PdaNetClient.Table

open Runs Sweep Datagram

set_option autoImplicit false

/-- Conversion to `int`. -/
def toInt32 (x : Int) : Int := (BitVec.ofInt 32 x).toInt

/-- `SESSION_LIMIT`, in percent. -/
def sessionLimit : BitVec 64 := 40

/-- "Get max sessions" -/
def maxSessions (rlimCur : BitVec 64) : Int :=
  let maxsessions := toInt32 (rlimCur * sessionLimit / 100).toNat
  if 1000 < maxsessions then 1000 else maxsessions

/-! ## The limit -/

/-- What the 64-bit product and the 32-bit conversion leave of 40 percent. -/
def limitShare (rlimCur : BitVec 64) : Nat := rlimCur.toNat * 40 % 2 ^ 64 / 100 % 2 ^ 32

/-- The limit is neither zero nor, read as an `int`, negative. -/
def LimitFits (rlimCur : BitVec 64) : Prop := 0 < limitShare rlimCur ∧ limitShare rlimCur < 2 ^ 31

instance (rlimCur : BitVec 64) : Decidable (LimitFits rlimCur) :=
  inferInstanceAs (Decidable (_ ∧ _))

theorem toInt32_limit (rlimCur : BitVec 64) :
    toInt32 (rlimCur * sessionLimit / 100).toNat =
      if limitShare rlimCur < 2 ^ 31 then (limitShare rlimCur : Int)
        else limitShare rlimCur - 2 ^ 32 := by
  have hquot : (rlimCur * sessionLimit / 100).toNat = rlimCur.toNat * 40 % 2 ^ 64 / 100 := by
    simp [sessionLimit, BitVec.toNat_mul, BitVec.toNat_udiv]
  rw [hquot, toInt32, BitVec.ofInt_natCast, BitVec.toInt_eq_toNat_cond,
    BitVec.toNat_ofNat, limitShare]
  split <;> split <;> omega

theorem maxSessions_le (rlimCur : BitVec 64) : maxSessions rlimCur ≤ 1000 := by
  unfold maxSessions
  simp only
  split <;> omega

theorem maxSessions_pos_iff (rlimCur : BitVec 64) :
    0 < maxSessions rlimCur ↔ LimitFits rlimCur := by
  unfold maxSessions LimitFits
  rw [toInt32_limit]
  have hlt : limitShare rlimCur < 2 ^ 32 := Nat.mod_lt _ (by decide)
  simp only
  split <;> split <;> omega

theorem maxSessions_eq {rlimCur : BitVec 64} (h : LimitFits rlimCur) :
    maxSessions rlimCur = (min 1000 (limitShare rlimCur) : Nat) := by
  obtain ⟨-, hhi⟩ := h
  unfold maxSessions
  rw [toInt32_limit, if_pos hhi]
  simp only
  split <;> omega

/-- The limits that systems have. -/
theorem limitFits_of_range {rlimCur : BitVec 64} (hlo : 3 ≤ rlimCur.toNat)
    (hhi : rlimCur.toNat < 5368709120) :
    LimitFits rlimCur := by
  have hprod : rlimCur.toNat * 40 % 2 ^ 64 = rlimCur.toNat * 40 := Nat.mod_eq_of_lt (by omega)
  have hquot : rlimCur.toNat * 40 / 100 % 2 ^ 32 = rlimCur.toNat * 40 / 100 :=
    Nat.mod_eq_of_lt (by omega)
  unfold LimitFits limitShare
  rw [hprod, hquot]
  omega

/-! ## The timeouts -/

/-- The timeout of `get_tcp_timeout` before it is scaled. -/
def tcpTimeout (s : Tcp.Session) : Int :=
  match s.state with
  | .listen | .synRecv => Tcp.tcpInitTimeout
  | .established => Tcp.tcpIdleTimeout
  | _ => Tcp.tcpCloseTimeout

def udpTimeout (s : UdpSession) : Int := if s.dest = 53 then udpTimeout53 else udpTimeoutAny

theorem getTcpTimeout_eq (s : Tcp.Session) (sessions maxsessions : Int) :
    Tcp.getTcpTimeout s sessions maxsessions =
      scaleTimeout (tcpTimeout s) sessions maxsessions := rfl

theorem getUdpTimeout_eq (s : UdpSession) (sessions maxsessions : Int) :
    getUdpTimeout s sessions maxsessions = scaleTimeout (udpTimeout s) sessions maxsessions := rfl

theorem tcpTimeout_nonneg (s : Tcp.Session) : 0 ≤ tcpTimeout s := by
  unfold tcpTimeout
  split <;> decide

theorem udpTimeout_nonneg (s : UdpSession) : 0 ≤ udpTimeout s := by
  unfold udpTimeout
  split <;> decide

/-- A timeout lies between zero and its base, and fewer sessions do not shorten it. -/
structure Scaled (base : Int) (f : Int → Int) (sessions : Nat) : Prop where
  nonneg : 0 ≤ f sessions
  le : f sessions ≤ base
  antitone : ∀ fewer : Nat, fewer ≤ sessions → f sessions ≤ f fewer

/-- The limit is a divisor, and every timeout of every session is scaled. -/
structure WellScaled (sessions : Nat) (maxsessions : Int) : Prop where
  positive : 0 < maxsessions
  most : maxsessions ≤ 1000
  icmp : Scaled icmpTimeout (fun n => getIcmpTimeout n maxsessions) sessions
  udp : ∀ s, Scaled (udpTimeout s) (fun n => getUdpTimeout s n maxsessions) sessions
  tcp : ∀ s, Scaled (tcpTimeout s) (fun n => Tcp.getTcpTimeout s n maxsessions) sessions

section

variable {base maxsessions : Int} {sessions : Nat}

theorem load_eq (maxsessions : Int) (n : Nat) :
    ((n : Int) * 100).tdiv maxsessions = n * 100 / maxsessions :=
  Int.tdiv_eq_ediv_of_nonneg (by omega)

theorem load_le_iff (hmax : 0 < maxsessions) (n : Nat) :
    (n : Int) * 100 / maxsessions ≤ 100 ↔ (n : Int) * 100 < 101 * maxsessions := by
  rw [← Int.lt_add_one_iff, Int.ediv_lt_iff_lt_mul hmax]
  exact Iff.rfl

theorem load_nonneg (hmax : 0 < maxsessions) (n : Nat) : 0 ≤ (n : Int) * 100 / maxsessions :=
  Int.ediv_nonneg (by omega) (by omega)

theorem scaleTimeout_mono (hbase : 0 ≤ base) (hmax : 0 < maxsessions) {fewer : Nat}
    (h : fewer ≤ sessions) :
    scaleTimeout base sessions maxsessions ≤ scaleTimeout base fewer maxsessions := by
  unfold scaleTimeout
  rw [load_eq, load_eq]
  have hload : (fewer : Int) * 100 / maxsessions ≤ sessions * 100 / maxsessions :=
    Int.ediv_le_ediv hmax (by omega)
  have hscale : base * (100 - sessions * 100 / maxsessions) ≤
      base * (100 - fewer * 100 / maxsessions) :=
    Int.mul_le_mul_of_nonneg_left (by omega) hbase
  exact Int.tdiv_le_tdiv (by decide) hscale

/-- Up to one percent above the limit every timeout is scaled. -/
theorem scaled_of_load (hbase : 0 ≤ base) (hmax : 0 < maxsessions)
    (h : (sessions : Int) * 100 < 101 * maxsessions) :
    Scaled base (fun n => scaleTimeout base n maxsessions) sessions := by
  have hle := (load_le_iff hmax sessions).mpr h
  have hlo := load_nonneg hmax sessions
  have hprod : 0 ≤ base * (100 - sessions * 100 / maxsessions) := Int.mul_nonneg hbase (by omega)
  refine ⟨?_, ?_, fun fewer hfewer => scaleTimeout_mono hbase hmax hfewer⟩
  · show 0 ≤ scaleTimeout base sessions maxsessions
    rw [scaleTimeout, load_eq]
    exact Int.tdiv_nonneg hprod (by decide)
  · show scaleTimeout base sessions maxsessions ≤ base
    rw [scaleTimeout, load_eq, Int.tdiv_eq_ediv_of_nonneg hprod]
    have hupper : base * (100 - sessions * 100 / maxsessions) ≤ base * 100 :=
      Int.mul_le_mul_of_nonneg_left (by omega) hbase
    exact Int.ediv_le_of_le_mul (by decide) hupper

/-- Above that the timeout of an ordinary UDP session is negative. -/
theorem load_of_nonneg (hmax : 0 < maxsessions)
    (h : 0 ≤ scaleTimeout udpTimeoutAny sessions maxsessions) :
    (sessions : Int) * 100 < 101 * maxsessions := by
  by_contra hmore
  have hload : 101 ≤ (sessions : Int) * 100 / maxsessions := by
    by_contra hless
    exact hmore ((load_le_iff hmax sessions).mp (by omega))
  have hless : scaleTimeout udpTimeoutAny sessions maxsessions ≤ -3 := by
    have hprod : (300 : Int) * (100 - sessions * 100 / maxsessions) ≤ -300 := by omega
    rw [scaleTimeout, load_eq, udpTimeoutAny]
    exact Int.tdiv_le_tdiv (by decide : (0 : Int) < 100) hprod
  omega

theorem wellScaled_iff (sessions : Nat) (maxsessions : Int) :
    WellScaled sessions maxsessions ↔
      0 < maxsessions ∧ maxsessions ≤ 1000 ∧ (sessions : Int) * 100 < 101 * maxsessions := by
  constructor
  · intro h
    have hany : 0 ≤ scaleTimeout udpTimeoutAny sessions maxsessions :=
      (h.udp ⟨0, 4, 0, 0, 0, client, 0, client, 0, .active, 0⟩).nonneg
    exact ⟨h.positive, h.most, load_of_nonneg h.positive hany⟩
  · rintro ⟨hpos, hmost, hload⟩
    have hscaled := fun (base : Int) (hbase : 0 ≤ base) => scaled_of_load hbase hpos hload
    exact {
      positive := hpos
      most := hmost
      icmp := hscaled icmpTimeout (by decide)
      udp := fun s => by simpa only [getUdpTimeout_eq] using hscaled _ (udpTimeout_nonneg s)
      tcp := fun s => by simpa only [getTcpTimeout_eq] using hscaled _ (tcpTimeout_nonneg s) }

instance (sessions : Nat) (maxsessions : Int) : Decidable (WellScaled sessions maxsessions) :=
  decidable_of_iff _ (wellScaled_iff sessions maxsessions).symm

end

/-! ## Runs -/

/-- When the loop counts, fewer than 101 percent of the limit are active. -/
def Counted (rlimCur : BitVec 64) : Loop → Input → Prop
  | l, .monitor _ => count l.table * 100 < 101 * min 1000 (limitShare rlimCur)
  | _, _ => True

/-- A step that does not count leaves the count alone. -/
theorem step_sessions (c : Config) (l : Loop) (i : Input) :
    (step c l i).1.sessions = match i with | .monitor _ => count l.table | _ => l.sessions := by
  have hcreate : ∀ (r : OpenResult) (s : Nat → Session × List Out),
      (l.create r s).1.sessions = l.sessions := by
    intro r s
    cases r <;> rfl
  cases i with
  | packet e p =>
    show (handleIp c e p l).1.sessions = l.sessions
    refine handleIp_cases c e p l ?_ ?_ ?_ ?_
    · exact fun _ => rfl
    · exact fun _ _ _ _ => rfl
    · exact fun _ _ _ => rfl
    · exact fun _ _ _ => hcreate _ _
  | _ => rfl

theorem step_wellScaled_iff {rlimCur : BitVec 64} (hfits : LimitFits rlimCur) (c : Config)
    (l : Loop) (i : Input) (h : WellScaled l.sessions (maxSessions rlimCur)) :
    WellScaled (step c l i).1.sessions (maxSessions rlimCur) ↔ Counted rlimCur l i := by
  rw [step_sessions]
  cases i with
  | monitor e =>
    show WellScaled (count l.table) (maxSessions rlimCur) ↔
      count l.table * 100 < 101 * min 1000 (limitShare rlimCur)
    rw [wellScaled_iff, and_iff_right h.positive, and_iff_right h.most, maxSessions_eq hfits]
    omega
  | _ => exact iff_of_true h trivial

/-- The limit and the timeouts are well defined in every state of a run exactly if the
limit fits and the loop never counts one percent more than it. -/
theorem timeouts_wellScaled_iff (abi : Abi) (fwd53 : Bool) (rlimCur : BitVec 64) (is : List Input) :
    Always (step ⟨abi, (maxSessions rlimCur).toNat, fwd53⟩)
        (fun l => WellScaled l.sessions (maxSessions rlimCur)) empty is ↔
      LimitFits rlimCur ∧ Along (step ⟨abi, (maxSessions rlimCur).toNat, fwd53⟩)
        (Counted rlimCur) empty is := by
  have hstart : WellScaled empty.sessions (maxSessions rlimCur) ↔ LimitFits rlimCur := by
    rw [wellScaled_iff, ← maxSessions_pos_iff, and_iff_right (maxSessions_le rlimCur)]
    show 0 < maxSessions rlimCur ∧ ((0 : Nat) : Int) * 100 < 101 * maxSessions rlimCur ↔ _
    omega
  by_cases hfits : LimitFits rlimCur
  · rw [and_iff_right hfits]
    exact always_iff_of_invariant _ (Counted rlimCur) _ (fun _ => True) (fun _ _ _ => trivial)
      (fun l i _ h => step_wellScaled_iff hfits _ l i h) empty is trivial (hstart.mpr hfits)
  · refine iff_of_false (fun halways => hfits (hstart.mp ?_)) fun h => hfits h.1
    cases is with
    | nil => exact halways
    | cons i is => exact halways.1

/-- A soft limit of two leaves no session, one without limit a negative number of them, and
one of three a limit that two packets read in one burst exceed. -/
theorem load_counterexample :
    ¬ WellScaled 0 (maxSessions 2) ∧ ¬ WellScaled 0 (maxSessions (BitVec.allOnes 64)) ∧
      ¬ Always (step ⟨.arm64V8a, (maxSessions 3).toNat, true⟩)
        (fun l => WellScaled l.sessions (maxSessions 3)) empty
        [.monitor fun _ => Tcp.plainMonitor, .packet (plainEnv 5) (icmpPacket (server 1)),
          .packet (plainEnv 6) (icmpPacket (server 2)), .monitor fun _ => Tcp.plainMonitor] := by
  decide +kernel

/-- Runs that keep the limit of `handle_ip` are counted within it. -/
theorem counted_of_admits {rlimCur : BitVec 64} (hfits : LimitFits rlimCur) (abi : Abi)
    (fwd53 : Bool) (is : List Input)
    (h : Along (step ⟨abi, (maxSessions rlimCur).toNat, fwd53⟩)
      (Admits ⟨abi, (maxSessions rlimCur).toNat, fwd53⟩) empty is) :
    Along (step ⟨abi, (maxSessions rlimCur).toNat, fwd53⟩) (Counted rlimCur) empty is := by
  have hpos : 0 < limitShare rlimCur := hfits.1
  have hmax : (maxSessions rlimCur).toNat = min 1000 (limitShare rlimCur) := by
    rw [maxSessions_eq hfits, Int.toNat_natCast]
  have hkept : ∀ l i, Named l ∧ count l.table ≤ (maxSessions rlimCur).toNat →
      Admits ⟨abi, (maxSessions rlimCur).toNat, fwd53⟩ l i → Counted rlimCur l i ∧
        Named (step ⟨abi, (maxSessions rlimCur).toNat, fwd53⟩ l i).1 ∧
        count (step ⟨abi, (maxSessions rlimCur).toNat, fwd53⟩ l i).1.table ≤
          (maxSessions rlimCur).toNat := by
    intro l i ⟨hnamed, hcount⟩ hadmits
    refine ⟨?_, step_named _ hnamed i, (step_within_iff _ hnamed i hcount).mpr hadmits⟩
    cases i with
    | monitor e =>
      show count l.table * 100 < 101 * min 1000 (limitShare rlimCur)
      omega
    | _ => trivial
  exact along_of_invariant _ _ _ _ (fun l i hI hP => hkept l i hI hP) is empty ⟨empty_named,
    Nat.zero_le _⟩ h

end PdaNetClient.Table
