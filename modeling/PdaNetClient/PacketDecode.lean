import PdaNetClient.TcpOptions
import PdaNetClient.IcmpChecksum

/-!
# From a buffer to the table

The machine of the table takes decoded packets. Here the handlers read their headers where
`handle_ip` has found them, and every buffer that is read from tun turns out to be one
packet of that machine, or none: what holds of all runs of the table holds of all runs of
the program on bytes. A loop over extension headers or options that does not end has no
counterpart; nor has one over the names of a DNS message, at which a run is cut.
-/
namespace PdaNetClient.Ip

open Reading Table Runs Datagram
open Http (Memory)
open Tcp (getDefaultMss)

set_option autoImplicit false

/-! ## The handlers -/

/-- The message is the one that is sent; the identifier is stored without `ntohs`. -/
def icmpOf (mem : Memory) (f : Flow) (type : UInt8) (payload icmplen : Nat) : IcmpPacket where
  version := f.version
  saddr := f.saddr
  daddr := f.daddr
  type := type
  id := BitVec.ofNat 16 ((le16 (payload + 4)).value mem)
  message := Icmp.sentMessage mem payload icmplen

def udpOf (mem : Memory) (f : Flow) (payload data datalen : Nat) : UdpPacket where
  version := f.version
  saddr := f.saddr
  source := (be16 payload).value mem
  daddr := f.daddr
  dest := (be16 (payload + 2)).value mem
  data := (lookMany data datalen).value mem

def tcpSegment (mem : Memory) (h : TcpHeader) (data datalen : Nat) : Tcp.Packet where
  seq := h.seq
  ackSeq := h.ackSeq
  urg := h.urg
  ack := h.ack
  psh := h.psh
  rst := h.rst
  syn := h.syn
  fin := h.fin
  window := BitVec.ofNat 16 h.window
  data := .of ((lookMany data datalen).value mem)

def tcpOf (mem : Memory) (f : Flow) (h : TcpHeader) (data datalen : Nat)
    (o : Options) : TcpPacket where
  version := f.version
  saddr := f.saddr
  source := h.source
  daddr := f.daddr
  dest := h.dest
  mss := o.mss
  ws := o.ws
  segment := tcpSegment mem h data datalen

/-- The options of a segment: those of a SYN over the defaults. -/
def segmentOptions (turns : Nat) (mem : Memory) (version payload : Nat) (h : TcpHeader) : Options :=
  let defaults : Options := ⟨getDefaultMss version, 0⟩
  if h.urg = false ∧ h.syn = true then
    ((decodeOptions version turns (castU8 (((h.doff : Nat) - 5) * 4))
      (payload + sizeofTcphdr)).value mem).getD defaults
  else defaults

/-- The packet that a call is about. -/
def packetOf (turns : Nat) (mem : Memory) (f : Flow) : Call → Packet
  | .icmp type payload icmplen => .icmp (icmpOf mem f type payload icmplen)
  | .udp payload data datalen => .udp (udpOf mem f payload data datalen)
  | .tcp h payload data datalen =>
    .tcp (tcpOf mem f h data datalen (segmentOptions turns mem f.version payload h))

/-- "Decode options", for a SYN that finds no session. -/
def synOptions (turns : Nat) (mem : Memory) (l : Loop) (version payload : Nat) (h : TcpHeader)
    (p : Options → TcpPacket) : Option Options :=
  let defaults : Options := ⟨getDefaultMss version, 0⟩
  if (l.table.find? (matchesTcp (p defaults))).isNone ∧ h.urg = false ∧ h.syn = true then
    (decodeOptions version turns (castU8 (((h.doff : Nat) - 5) * 4))
      (payload + sizeofTcphdr)).value mem
  else some defaults

/-- The handlers behind `handle_ip`; without a result the loop over the options is still
running. -/
def handle (c : Config) (e : PacketEnv) (turns : Nat) (mem : Memory) (f : Flow) (call : Call)
    (l : Loop) :
    Option (Loop × List Table.Out) :=
  match call with
  | .icmp type payload icmplen => some (handleIcmp e (icmpOf mem f type payload icmplen) l)
  | .udp payload data datalen => some (handleUdp e (udpOf mem f payload data datalen) l)
  | .tcp h payload data datalen =>
    (synOptions turns mem l f.version payload h (tcpOf mem f h data datalen)).map fun o =>
      Table.handleTcp c.abi e (tcpOf mem f h data datalen o) l

/-- A buffer that is read from tun. -/
structure Buffer where
  length : Nat
  mem : Memory

/-- `handle_ip` with its handlers, both loops with the same number of turns. -/
def handleBuffer (c : Config) (e : PacketEnv) (turns : Nat) (b : Buffer) (l : Loop) :
    Option (Loop × List Table.Out) :=
  match (handleIp c.abi c l turns b.length).value b.mem with
  | .drop => some (l, [])
  | .loops => none
  | .pass (f, call) => handle c e turns b.mem f call l

/-! ## What passes -/

/-- A flow and a call that belong together. -/
def Belongs (mem : Memory) (f : Flow) : Call → Prop
  | .icmp _ _ _ => isIcmp f.protocol
  | .udp payload _ _ => f.protocol = ipprotoUdp ∧ f.sport = (be16 payload).value mem ∧
      f.dport = (be16 (payload + 2)).value mem
  | .tcp h _ _ _ => f.protocol = ipprotoTcp ∧ f.syn = h.syn

theorem readFlow_protocol {abi : Abi} {length version : Nat} {p : Located} {mem : Memory} {f : Flow}
    (h : (readFlow abi length version p).value mem = some f) : f.protocol = p.protocol := by
  simp only [readFlow, ↓value_bind, ↓value_ite, value_pure] at h
  split at h <;> (try split at h) <;> (try split at h) <;> (try split at h) <;>
    simp at h <;> rw [← h]

theorem belongs_of_readFlow {abi : Abi} {length version : Nat} {p : Located} {mem : Memory}
    {f : Flow} (h : (readFlow abi length version p).value mem = some f)
    (hupper : isUpperLayer p.protocol) :
    Belongs mem f ((protocolCall abi length p).value mem) := by
  have hprotocol := readFlow_protocol h
  simp only [readFlow, ↓value_bind] at h
  rcases isUpperLayer_cases hupper with hk | ⟨hicmp, hk⟩ | ⟨hicmp, hudp, hk⟩
  · rw [protocolCall, if_pos hk]
    show isIcmp f.protocol
    rwa [hprotocol]
  · rw [protocolCall, if_neg hicmp, if_pos hk]
    simp only [if_neg hicmp, if_pos hk, ↓value_ite, value_pure] at h
    split at h
    · cases h
    · cases h
      exact ⟨hk, rfl, rfl⟩
  · rw [protocolCall, if_neg hicmp, if_neg hudp]
    simp only [if_neg hicmp, if_neg hudp, if_pos hk, ↓value_ite, value_pure] at h
    split at h
    · cases h
    · cases h
      exact ⟨hk, rfl⟩

/-- What `handle_ip` passes on was read from the buffer: the addresses of the IP header, and
the headers and data behind the payload that it has located. -/
structure Found (abi : Abi) (c : Config) (l : Loop) (turns : Nat) (b : Buffer) (f : Flow)
    (call : Call) : Prop where
  under : overLimit c l f = false
  belongs : Belongs b.mem f call
  version : f.version = (b.mem 0).toNat / 16
  known : f.version = 4 ∨ f.version = 6
  addrs : (readAddrs f.version).value b.mem = (f.saddr, f.daddr)
  payload : ∃ p, (locate f.version turns b.length).value b.mem = .pass p ∧ isUpperLayer p.protocol ∧
    call = (protocolCall abi b.length p).value b.mem

theorem readFlow_addrs {abi : Abi} {length version : Nat} {p : Located} {mem : Memory} {f : Flow}
    (h : (readFlow abi length version p).value mem = some f) :
    f.version = version ∧ (readAddrs version).value mem = (f.saddr, f.daddr) := by
  simp only [readFlow, ↓value_bind, ↓value_ite, value_pure] at h
  split at h <;> (try split at h) <;> (try split at h) <;> (try split at h) <;> simp at h <;>
    rw [← h] <;> exact ⟨rfl, rfl⟩

theorem handleIp_found {abi : Abi} {c : Config} {l : Loop} {turns : Nat} {b : Buffer} {f : Flow}
    {call : Call} (h : (handleIp abi c l turns b.length).value b.mem = .pass (f, call)) :
    Found abi c l turns b f call := by
  unfold handleIp at h
  simp only [value_bind, value_u8] at h
  have hknown : (locate ((b.mem 0).toNat / 16) turns b.length).value b.mem = .drop ∨
      ((b.mem 0).toNat / 16 = 4 ∨ (b.mem 0).toNat / 16 = 6) := by
    by_cases h4 : (b.mem 0).toNat / 16 = 4
    · exact .inr (.inl h4)
    · by_cases h6 : (b.mem 0).toNat / 16 = 6
      · exact .inr (.inr h6)
      · exact .inl (by simp [locate, h4, h6])
  cases hlocate : (locate ((b.mem 0).toNat / 16) turns b.length).value b.mem with
  | drop => simp [hlocate] at h
  | loops => simp [hlocate] at h
  | pass p =>
    simp only [hlocate] at h
    cases hflow : (readFlow abi b.length ((b.mem 0).toNat / 16) p).value b.mem with
    | none => simp [(dispatch_none abi c l b.length _ hflow).1] at h
    | some g =>
      cases hlimit : overLimit c l g with
      | true => simp [(dispatch_limit abi c l b.length _ hflow hlimit).1] at h
      | false =>
        by_cases hupper : isUpperLayer p.protocol
        · rw [(dispatch_call abi c l b.length _ hflow hlimit hupper).1] at h
          cases h
          obtain ⟨hversion, haddrs⟩ := readFlow_addrs hflow
          have hversions := hknown.resolve_left (by simp [hlocate])
          exact ⟨hlimit, belongs_of_readFlow hflow hupper, hversion, hversion ▸ hversions,
            hversion ▸ haddrs, p, hversion ▸ hlocate, hupper, rfl⟩
        · simp [(dispatch_other abi c l b.length _ hflow hupper).1] at h

/-! ## The limit -/

theorem hasUdpSession_data (c : Config) (p q : UdpPacket) (table : List Entry)
    (h : { p with data := [] } = { q with data := [] }) :
    hasUdpSession c p table = hasUdpSession c q table := by
  obtain ⟨version, saddr, source, daddr, dest, data⟩ := p
  cases h
  rfl

section

variable (c : Config) (l : Loop) {f : Flow}

/-- `handle_ip` and the machine of the table set the same limit. -/
theorem limited_icmp (hicmp : isIcmp f.protocol) (p : IcmpPacket) :
    limited c (.icmp p) l = overLimit c l f := by
  simp [overLimit, limited, hicmp]

theorem limited_udp (hudp : f.protocol = ipprotoUdp) {p : UdpPacket}
    (hp : { p with data := [] } = ⟨f.version, f.saddr, f.sport, f.daddr, f.dport, []⟩) :
    limited c (.udp p) l = overLimit c l f := by
  have hsame :=
    hasUdpSession_data c p ⟨f.version, f.saddr, f.sport, f.daddr, f.dport, []⟩ l.table hp
  have hicmp : ¬ isIcmp ipprotoUdp := by decide
  have htcp : ipprotoUdp ≠ ipprotoTcp := by decide
  simp [overLimit, limited, hudp, hsame, hicmp, htcp]

theorem limited_tcp (htcp : f.protocol = ipprotoTcp) {p : TcpPacket} (hp : p.segment.syn = f.syn) :
    limited c (.tcp p) l = overLimit c l f := by
  have hicmp : ¬ isIcmp ipprotoTcp := by decide
  have hudp : ipprotoTcp ≠ ipprotoUdp := by decide
  simp [overLimit, limited, htcp, hp, hicmp, hudp]

end

/-! ## A buffer is a packet -/

/-- A segment for a known session, and one that is no SYN, does not depend on the options. -/
theorem handleTcp_options (abi : Abi) (e : PacketEnv) (p : TcpPacket) (mss ws : Nat) (l : Loop)
    (h : ¬ ((l.table.find? (matchesTcp p)).isNone ∧ p.segment.urg = false ∧ p.segment.syn = true)) :
    Table.handleTcp abi e { p with mss := mss, ws := ws } l = Table.handleTcp abi e p l := by
  have hmatches : matchesTcp { p with mss := mss, ws := ws } = matchesTcp p := rfl
  simp only [Table.handleTcp, hmatches]
  cases hfind : l.table.find? (matchesTcp p) with
  | some x => rfl
  | none =>
    cases hurg : p.segment.urg with
    | true => rfl
    | false =>
      cases hsyn : p.segment.syn with
      | true => exact absurd ⟨by rw [hfind]; rfl, hurg, hsyn⟩ h
      | false => rfl

/-- Where the options are not decoded they do not matter. -/
theorem handle_tcp {c : Config} {e : PacketEnv} {turns : Nat} {mem : Memory} {f : Flow}
    {h : TcpHeader} {payload data datalen : Nat} {l : Loop} {r : Loop × List Table.Out}
    (hr : handle c e turns mem f (.tcp h payload data datalen) l = some r) :
    r = Table.handleTcp c.abi e
      (tcpOf mem f h data datalen (segmentOptions turns mem f.version payload h)) l := by
  obtain ⟨o, ho, rfl⟩ := Option.map_eq_some_iff.mp hr
  simp only [synOptions] at ho
  split at ho
  · rename_i hsyn
    rw [segmentOptions, if_pos hsyn.2, ho, Option.getD_some]
  · rename_i hplain
    cases ho
    exact (handleTcp_options c.abi e (tcpOf mem f h data datalen ⟨getDefaultMss f.version, 0⟩) _ _ l
      hplain).symm

theorem handle_found {c : Config} {e : PacketEnv} {turns : Nat} {b : Buffer} {f : Flow}
    {call : Call} {l : Loop} (h : Found c.abi c l turns b f call) {r : Loop × List Table.Out}
    (hr : handle c e turns b.mem f call l = some r) :
    r = Table.step c l (.packet e (packetOf turns b.mem f call)) := by
  have hbelongs := h.belongs
  cases call with
  | icmp type payload icmplen =>
    cases hr
    have hlimit := (limited_icmp c l hbelongs (icmpOf b.mem f type payload icmplen)).trans h.under
    exact (if_neg (Bool.eq_false_iff.mp hlimit)).symm
  | udp payload data datalen =>
    cases hr
    obtain ⟨hudp, hsport, hdport⟩ := hbelongs
    have hlimit := (limited_udp c l hudp (p := udpOf b.mem f payload data datalen)
      (by simp [udpOf, hsport, hdport])).trans h.under
    exact (if_neg (Bool.eq_false_iff.mp hlimit)).symm
  | tcp header payload data datalen =>
    obtain ⟨htcp, hsyn⟩ := hbelongs
    have hlimit := (limited_tcp c l htcp
      (p := tcpOf b.mem f header data datalen (segmentOptions turns b.mem f.version payload header))
        hsyn.symm).trans h.under
    rw [handle_tcp hr]
    exact (if_neg (Bool.eq_false_iff.mp hlimit)).symm

/-- The packet `p` stands in the buffer, behind the headers that are skipped. -/
def Buffer.Holds (abi : Abi) (turns : Nat) (b : Buffer) (p : Packet) : Prop :=
  ∃ f call, p = packetOf turns b.mem f call ∧ f.version = (b.mem 0).toNat / 16 ∧
    (f.version = 4 ∨ f.version = 6) ∧
    (readAddrs f.version).value b.mem = (f.saddr, f.daddr) ∧
      ∃ loc, (locate f.version turns b.length).value b.mem = .pass loc ∧ isUpperLayer loc.protocol ∧
        call = (protocolCall abi b.length loc).value b.mem

theorem handleBuffer_step {c : Config} {e : PacketEnv} {turns : Nat} {b : Buffer} {l : Loop}
    {r : Loop × List Table.Out} (hr : handleBuffer c e turns b l = some r) :
    r = (l, []) ∨ ∃ p, b.Holds c.abi turns p ∧ r = Table.step c l (.packet e p) := by
  unfold handleBuffer at hr
  split at hr
  · cases hr
    exact .inl rfl
  · cases hr
  · rename_i f call hpass
    have h := handleIp_found hpass
    exact .inr ⟨packetOf turns b.mem f call, ⟨f, call, rfl, h.version, h.known, h.addrs, h.payload⟩,
      handle_found h hr⟩

/-! ## What a buffer can hold -/

/-- The fields are as wide as they are in the headers, and the version is one of the two. -/
def Fits : Packet → Prop
  | .icmp p => p.version = 4 ∨ p.version = 6
  | .udp p => (p.version = 4 ∨ p.version = 6) ∧ p.source < 2 ^ 16 ∧ p.dest < 2 ^ 16
  | .tcp p => (p.version = 4 ∨ p.version = 6) ∧ (p.source < 2 ^ 16 ∧ p.dest < 2 ^ 16) ∧
      p.mss < 2 ^ 16 ∧ p.ws < 2 ^ 8

theorem be16_lt (mem : Memory) (i : Nat) : (be16 i).value mem < 2 ^ 16 := by
  have hhigh := (mem i).toNat_lt
  have hlow := (mem (i + 1)).toNat_lt
  rw [value_be16]
  omega

/-- The values of the options are as wide as their fields. -/
def Options.Narrow (o : Options) : Prop := o.mss < 2 ^ 16 ∧ o.ws < 2 ^ 8

theorem readOption_narrow (mem : Memory) (kind len : UInt8) (options : Nat) {o : Options}
    (h : o.Narrow) :
    ((readOption kind len options o).value mem).Narrow := by
  unfold readOption
  split
  · exact ⟨be16_lt mem _, h.2⟩
  · split
    · exact ⟨h.1, (mem _).toNat_lt⟩
    · exact h

theorem optionLoop_narrow (mem : Memory) (e turns off : Nat) {o o' : Options} (h : o.Narrow)
    (ho : (optionLoop turns ((e : Int) - off) off o).value mem = some o') : o'.Narrow := by
  induction turns generalizing off o with
  | zero =>
    by_cases hoff : off < e
    · rw [loop_stuck o hoff] at ho
      cases ho
    · rw [loop_done 0 o (Nat.not_lt.mp hoff)] at ho
      cases ho
      exact h
  | succ turns ih =>
    by_cases hoff : off < e
    · by_cases hkind : mem off = 0
      · rw [(loop_end turns o hoff hkind).1] at ho
        cases ho
        exact h
      · rw [(loop_next turns o hoff hkind).1] at ho
        exact ih _ (readOption_narrow mem _ _ off h) ho
    · rw [loop_done (turns + 1) o (Nat.not_lt.mp hoff)] at ho
      cases ho
      exact h

theorem segmentOptions_narrow (turns : Nat) (mem : Memory) (version payload : Nat) (h : TcpHeader) :
    (segmentOptions turns mem version payload h).Narrow := by
  have hdefaults : Options.Narrow ⟨getDefaultMss version, 0⟩ := by
    have hws : (0 : Nat) < 2 ^ 8 := by decide
    refine ⟨?_, hws⟩
    simp only [getDefaultMss]
    split <;> decide
  unfold segmentOptions
  simp only
  split
  · cases hdecode : (decodeOptions version turns (castU8 (((h.doff : Nat) - 5) * 4))
      (payload + sizeofTcphdr)).value mem with
    | none => exact hdefaults
    | some o =>
      have hlen : ((castU8 (((h.doff : Nat) - 5) * 4) : Nat) : Int) =
          ((payload + sizeofTcphdr + castU8 (((h.doff : Nat) - 5) * 4) : Nat) : Int) -
            (payload + sizeofTcphdr : Nat) := by omega
      rw [decodeOptions, hlen] at hdecode
      exact optionLoop_narrow mem _ turns _ hdefaults hdecode
  · exact hdefaults

theorem Buffer.Holds.fits {abi : Abi} {turns : Nat} {b : Buffer} {p : Packet}
    (h : b.Holds abi turns p) : Fits p := by
  obtain ⟨f, call, rfl, -, hversion, -, loc, -, hupper, rfl⟩ := h
  rcases isUpperLayer_cases hupper with hk | ⟨hicmp, hk⟩ | ⟨hicmp, hudp, hk⟩
  · rw [protocolCall, if_pos hk]
    exact hversion
  · rw [protocolCall, if_neg hicmp, if_pos hk]
    exact ⟨hversion, be16_lt _ _, be16_lt _ _⟩
  · rw [protocolCall, if_neg hicmp, if_neg hudp]
    exact ⟨hversion, ⟨be16_lt _ _, be16_lt _ _⟩, segmentOptions_narrow ..⟩

/-! ## Runs on bytes -/

/-- A buffer from tun, or another input of the loop. -/
inductive RawInput where
  | tun (e : PacketEnv) (b : Buffer)
  | loop (i : Input)

def rawStep (c : Config) (turns : Nat) (l : Loop) : RawInput → Option (Loop × List Table.Out)
  | .tun e b => handleBuffer c e turns b l
  | .loop i => some (Table.step c l i)

def rawRun (c : Config) (turns : Nat) : Loop → List RawInput → Option (Loop × List Table.Out)
  | l, [] => some (l, [])
  | l, i :: is => (rawStep c turns l i).bind fun r => (rawRun c turns r.1 is).map fun q =>
      (q.1, r.2 ++ q.2)

/-- Each buffer has become the packet that it holds, or nothing. -/
inductive Decodes (abi : Abi) (turns : Nat) : List RawInput → List Input → Prop
  | nil : Decodes abi turns [] []
  | loop (i : Input) {is : List RawInput} {js : List Input} (h : Decodes abi turns is js) :
      Decodes abi turns (.loop i :: is) (i :: js)
  | packet (e : PacketEnv) {b : Buffer} {p : Packet} (hp : b.Holds abi turns p) {is : List RawInput}
      {js : List Input}
    (h : Decodes abi turns is js) : Decodes abi turns (.tun e b :: is) (.packet e p :: js)
  | dropped (e : PacketEnv) (b : Buffer) {is : List RawInput} {js : List Input}
      (h : Decodes abi turns is js) :
    Decodes abi turns (.tun e b :: is) js

theorem rawRun_decodes (c : Config) (turns : Nat) (l : Loop) (is : List RawInput)
    (r : Loop × List Table.Out) (h : rawRun c turns l is = some r) :
    ∃ js, Decodes c.abi turns is js ∧ run (Table.step c) l js = r := by
  induction is generalizing l r with
  | nil =>
    cases h
    exact ⟨[], .nil, rfl⟩
  | cons i is ih =>
    obtain ⟨s, hs, hrest⟩ := Option.bind_eq_some_iff.mp h
    obtain ⟨q, hq, hr⟩ := Option.map_eq_some_iff.mp hrest
    obtain ⟨js, hjs, hrun⟩ := ih s.1 q hq
    cases i with
    | tun e b =>
      rcases handleBuffer_step hs with hdrop | ⟨p, hp, hstep⟩
      · refine ⟨js, .dropped e b hjs, ?_⟩
        rw [hdrop] at hrun hr
        rw [hrun, ← hr]
        simp
      · refine ⟨.packet e p :: js, .packet e hp hjs, ?_⟩
        rw [run_cons, ← hstep, hrun, ← hr]
    | loop i =>
      cases hs
      exact ⟨i :: js, .loop i hjs, by rw [run_cons, hrun, ← hr]⟩

/-- The other inputs of the loop: no packet is among them. -/
def RawInput.proper : RawInput → Prop
  | .tun _ _ => True
  | .loop i => ∀ e p, i ≠ .packet e p

/-- Each packet of the decoded run was in a buffer. -/
theorem Decodes.held {abi : Abi} {turns : Nat} {is : List RawInput} {js : List Input}
    (h : Decodes abi turns is js) (hproper : ∀ i ∈ is, i.proper) {e : PacketEnv} {p : Packet}
    (hp : .packet e p ∈ js) :
    ∃ b, .tun e b ∈ is ∧ b.Holds abi turns p := by
  induction h with
  | nil => cases hp
  | loop i _ ih =>
    obtain ⟨hi, hrest⟩ := List.forall_mem_cons.mp hproper
    rcases List.mem_cons.mp hp with hhead | htail
    · exact absurd hhead.symm (hi e p)
    · obtain ⟨b, hb, hholds⟩ := ih hrest htail
      exact ⟨b, List.mem_cons_of_mem _ hb, hholds⟩
  | packet e' hq _ ih =>
    rcases List.mem_cons.mp hp with hhead | htail
    · cases hhead
      exact ⟨_, List.mem_cons_self .., hq⟩
    · obtain ⟨b, hb, hholds⟩ := ih (List.forall_mem_cons.mp hproper).2 htail
      exact ⟨b, List.mem_cons_of_mem _ hb, hholds⟩
  | dropped _ _ _ ih =>
    obtain ⟨b, hb, hholds⟩ := ih (List.forall_mem_cons.mp hproper).2 hp
    exact ⟨b, List.mem_cons_of_mem _ hb, hholds⟩

/-- Every run on bytes, whatever the buffers are, is a run of the table on the packets that
they hold, with the same table and the same outputs; the fields of these packets are no
wider than in their headers. -/
theorem run_on_bytes (c : Config) (turns : Nat) (l : Loop) (is : List RawInput)
    (r : Loop × List Table.Out) (hproper : ∀ i ∈ is, i.proper) (h : rawRun c turns l is = some r) :
    ∃ js, Decodes c.abi turns is js ∧ (∀ e p, .packet e p ∈ js → Fits p) ∧
    run (Table.step c) l js = r := by
  obtain ⟨js, hjs, hrun⟩ := rawRun_decodes c turns l is r h
  refine ⟨js, hjs, fun e p hp => ?_, hrun⟩
  obtain ⟨b, -, hb⟩ := hjs.held hproper hp
  exact hb.fits

/-- A datagram for port 53, a buffer that is too short, and a check pass. -/
def plainBytes : List RawInput :=
  [.tun (plainEnv 3) ⟨28, bufferOf (packet4 0x45 0 0 17 plainUdp)⟩,
    .tun (plainEnv 4) ⟨19, bufferOf (packet4 0x45 0 0 17 plainUdp)⟩,
    .loop (.check fun _ => answerAt 1)]

theorem run_on_bytes_datagram :
    ∃ js, Decodes .arm64V8a 0 plainBytes js ∧ (∀ e p, .packet e p ∈ js → Fits p) ∧
    run (Table.step (plainConfig 10 true)) empty js =
      ((rawRun (plainConfig 10 true) 0 empty plainBytes).get (by decide +kernel)) :=
  run_on_bytes (plainConfig 10 true) 0 empty plainBytes _ (by simp [plainBytes, RawInput.proper])
    (Option.some_get _).symm

end PdaNetClient.Ip
