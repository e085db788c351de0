import PdaNetClient.DnsSafety

/-!
# The names that `dns.c` decodes

Names in the format of the protocol, independent of the parser: labels, and a zero byte or a
pointer to a name behind them. The stored name is right. The place behind it is that of the
first pointer only if no label precedes the pointer: `off` is advanced by its two bytes and
not by the labels. Names of more than 255 bytes start over at the front of the buffer.
-/
namespace PdaNetClient.Dns

open Reading Walks
open Http (Memory memoryOf)
open Ip (Read be16 be32)

set_option autoImplicit false

/-! ## The format -/

structure Name where
  labels : List Bytes
  /-- the number of labels in front of the zero byte or the pointer -/
  inPlace : Nat
  compressed : Bool
  /-- the place behind the zero byte or the pointer -/
  stop : Nat

/-- A name at a place of the message; the pointer may lead anywhere. -/
inductive NameAt (msg : Bytes) : Nat → Name → Prop where
  | zero {i : Nat} : msg[i]? = some 0 → NameAt msg i ⟨[], 0, false, i + 1⟩
  | label {i : Nat} {label : Bytes} {n : Name} : label ≠ [] → label.length ≤ 63 →
      msg[i]? = some (UInt8.ofNat label.length) → (msg.drop (i + 1)).take label.length = label →
      NameAt msg (i + 1 + label.length) n →
      NameAt msg i { n with labels := label :: n.labels, inPlace := n.inPlace + 1 }
  | pointer {i : Nat} {high low : UInt8} {n : Name} : msg[i]? = some high → high &&& 0xC0 = 0xC0 →
      msg[i + 1]? = some low → NameAt msg ((high &&& 0x3F).toNat * 256 + low.toNat) n →
      NameAt msg i ⟨n.labels, 0, true, i + 2⟩

/-- The labels joined by dots. -/
def text (labels : List Bytes) : Bytes := List.intercalate [46] labels

/-- The labels with a dot behind each. -/
def dotted (labels : List Bytes) : Bytes := labels.flatMap (· ++ [46])

/-- The first `n` bytes of the buffer. -/
def Buffer.upTo (b : Buffer) (n : Nat) : Bytes := (List.range n).map b.bytes

/-- The buffer holds the text and its terminator. -/
structure Stored (b : Buffer) (name : Bytes) : Prop where
  bytes : b.upTo name.length = name
  terminator : b.bytes name.length = 0
  fits : name.length ≤ dnsQnameMax

/-- `get_qname` stores the name and returns the place behind it, so that the fields read there
are those of the record. -/
structure Decoded (mem : Memory) (datalen off : Nat) (n : Name) : Prop where
  name : ∀ qname, ∃ turns b, (getQname datalen turns (BitVec.ofNat 16 off) qname).value mem =
    some ((n.stop : Int), b) ∧
    Stored b (text n.labels)
  fields :
    ∀ turns qname r, (getQname datalen turns (BitVec.ofNat 16 off) qname).value mem = some r →
    (readRecord r.1.toNat).value mem = (readRecord n.stop).value mem

/-! ## The buffer -/

section

variable (b : Buffer)

theorem upTo_zero : b.upTo 0 = [] := rfl

theorem upTo_succ (n : Nat) : b.upTo (n + 1) = b.upTo n ++ [b.bytes n] := by
  simp [Buffer.upTo, List.range_succ]

theorem upTo_put {n i : Nat} (v : UInt8) (h : n ≤ i) : (b.put i v).upTo n = b.upTo n := by
  apply List.map_congr_left
  intro j hj
  have hlt := List.mem_range.mp hj
  exact if_neg (by omega)

theorem upTo_put_self (n : Nat) (v : UInt8) : (b.put n v).upTo (n + 1) = b.upTo n ++ [v] := by
  rw [upTo_succ, upTo_put b v (Nat.le_refl n)]
  exact congrArg (b.upTo n ++ [·]) (if_pos rfl)

theorem upTo_copy (n : Nat) (label : Bytes) :
    (b.copy n label).upTo (n + label.length) = b.upTo n ++ label := by
  induction label generalizing b n with
  | nil => simp [Buffer.copy]
  | cons v label ih =>
    have hrest := ih (b.put n v) (n + 1)
    rw [upTo_put_self, List.append_assoc] at hrest
    rw [Buffer.copy, List.length_cons, Nat.add_comm label.length, ← Nat.add_assoc, hrest]
    rfl

theorem upTo_store (p : Place) (label : Bytes) :
    (store b p label).upTo (p.2.toNat + (label.length + 1)) =
      b.upTo p.2.toNat ++ (label ++ [46]) := by
  rw [← Nat.add_assoc, store, upTo_put_self, upTo_copy, List.append_assoc]

theorem take_upTo {m n : Nat} (h : m ≤ n) : (b.upTo n).take m = b.upTo m := by
  rw [Buffer.upTo, ← List.map_take, List.take_range, Nat.min_eq_left h, Buffer.upTo]

end

theorem dotted_cons (label : Bytes) (labels : List Bytes) :
    dotted (label :: labels) = label ++ [46] ++ dotted labels := rfl

theorem length_dotted_cons (label : Bytes) (labels : List Bytes) :
    (dotted (label :: labels)).length = label.length + 1 + (dotted labels).length := by
  rw [dotted_cons]
  simp [Nat.add_comm 1, Nat.add_assoc]

theorem dotted_text {labels : List Bytes} (h : labels ≠ []) :
    dotted labels = text labels ++ [46] := by
  induction labels with
  | nil => exact absurd rfl h
  | cons label labels ih =>
    by_cases hnil : labels = []
    · subst hnil
      simp [dotted, text, List.intercalate]
    · rw [dotted_cons, ih hnil, text, text, List.intercalate_cons_of_ne_nil hnil]
      simp

/-! ## The labels of a walk -/

/-- The labels that are walked over. -/
def labelsOf (mem : Memory) (datalen : Nat) (l : List Place) : List Bytes :=
  (stored mem datalen l).map (·.2)

section

variable {mem : Memory} {datalen : Nat}

theorem labelsOf_pointer {p : Place} (l : List Place) (h : isPointer mem p) :
    labelsOf mem datalen (p :: l) = labelsOf mem datalen l := by
  simp [labelsOf, stored, h]

theorem stored_label {p : Place} (l : List Place) {label : Bytes} (h : ¬ isPointer mem p)
    (hlabel : labelAt mem datalen p = some label) :
    stored mem datalen (p :: l) = (p, label) :: stored mem datalen l := by
  simp [stored, h, hlabel]

/-- Along a walk the count grows by the labels and their dots, modulo 256, and as long as it does
not wrap around the buffer holds them. -/
theorem walk_stores {p : Place} {l : List Place} (h : Walk (next mem datalen) p l) (b : Buffer) :
    (∃ q, l.getLast? = some q ∧ q.2 =
      p.2 + BitVec.ofNat 8 (dotted (labelsOf mem datalen l)).length) ∧
      (p.2.toNat + (dotted (labelsOf mem datalen l)).length ≤ dnsQnameMax →
        ((stored mem datalen l).foldl (fun b e => store b e.1 e.2) b).upTo
            (p.2.toNat + (dotted (labelsOf mem datalen l)).length) =
          b.upTo p.2.toNat ++ dotted (labelsOf mem datalen l)) := by
  induction h generalizing b with
  | stop hnone =>
    rw [labelsOf, stored_stop hnone]
    simp [dotted]
  | @step p t l hsome hwalk ih =>
    have hlast : (p :: l).getLast? = l.getLast? := List.getLast?_cons_of_ne_nil hwalk.ne_nil
    by_cases hpointer : isPointer mem p
    · have hstored : stored mem datalen (p :: l) = stored mem datalen l := by
        simp [stored, hpointer]
      rw [next, if_pos hpointer] at hsome
      cases hsome
      rw [hlast, labelsOf, hstored]
      exact ih b
    · rw [next, if_neg hpointer] at hsome
      obtain ⟨label, hlabel, rfl⟩ := Option.map_eq_some_iff.mp hsome
      have hstored := stored_label l hpointer hlabel
      have hlabels : labelsOf mem datalen (p :: l) = label :: labelsOf mem datalen l := by
        rw [labelsOf, hstored]
        rfl
      have hlength : (dotted (labelsOf mem datalen (p :: l))).length =
          label.length + 1 + (dotted (labelsOf mem datalen l)).length := by
        rw [hlabels, length_dotted_cons]
      obtain ⟨⟨q, hq, hcount⟩, hrest⟩ := ih (store b p label)
      constructor
      · refine ⟨q, hlast.trans hq, ?_⟩
        rw [hcount, hlength, BitVec.ofNat_add, behind, BitVec.add_assoc]
      · intro hfits
        rw [hlength] at hfits ⊢
        have hmax : dnsQnameMax = 255 := rfl
        have hbehind : (behind p label).2.toNat = p.2.toNat + (label.length + 1) := by
          rw [behind, BitVec.toNat_add, BitVec.toNat_ofNat]
          omega
        have hupTo := hrest (by rw [hbehind]; omega)
        rw [hbehind, upTo_store] at hupTo
        rw [hstored, List.foldl_cons, hlabels, dotted_cons, ← Nat.add_assoc p.2.toNat, hupTo]
        simp

/-- An accepted name is stored right exactly if its labels, each with a byte, are at most 255
bytes. -/
theorem name_stored_iff {off : BitVec 16} {l : List Place} (h : Walk (next mem datalen) (off, 0) l)
    {turns : Nat} {qname : Buffer} {r : Int × Buffer}
    (hvalue : (getQname datalen turns off qname).value mem = some r) (hr : 0 ≤ r.1) :
    Stored r.2 (text (labelsOf mem datalen l)) ↔
    (dotted (labelsOf mem datalen l)).length ≤ dnsQnameMax := by
  obtain ⟨len, s, hloop, -, rfl⟩ := getQname_value hvalue
  have hwalked := loop_walked h (s := startQname off qname) rfl hloop
  obtain ⟨⟨q, hq, hcount⟩, hupTo⟩ := walk_stores h (startQname off qname).qname
  rw [hwalked.place] at hq
  cases hq
  have hmax : dnsQnameMax = 255 := rfl
  have hvalid : ¬ (len > 0 ∨ s.noff = 0) := by
    intro hinvalid
    rw [endQname, if_pos hinvalid] at hr
    simp at hr
  have hnoff : s.noff.toNat = (dotted (labelsOf mem datalen l)).length % 256 := by
    have hcount : s.noff = 0#8 + BitVec.ofNat 8 (dotted (labelsOf mem datalen l)).length := hcount
    rw [hcount, BitVec.toNat_add, BitVec.toNat_ofNat]
    simp
  have hpos : 0 < s.noff.toNat := by
    have hne : s.noff ≠ 0 := fun h0 => hvalid (.inr h0)
    exact Nat.pos_of_ne_zero fun h0 => hne (BitVec.eq_of_toNat_eq h0)
  have hlabels : labelsOf mem datalen l ≠ [] := by
    intro hnil
    rw [hnil] at hnoff
    simp [dotted] at hnoff
    omega
  have hdotted := dotted_text hlabels
  have hlength : (dotted (labelsOf mem datalen l)).length =
      (text (labelsOf mem datalen l)).length + 1 := by
    rw [hdotted]
    simp
  constructor
  · intro hstored
    have hfits := hstored.fits
    omega
  · intro hfits
    have hbytes : s.qname.upTo (dotted (labelsOf mem datalen l)).length =
        dotted (labelsOf mem datalen l) := by
      have hfull := hupTo (by simpa using hfits)
      have hzero : ((off, 0) : Place).2.toNat = 0 := rfl
      rwa [hzero, Nat.zero_add, ← hwalked.qname, upTo_zero, List.nil_append] at hfull
    have hplace : s.noff.toNat - 1 = (text (labelsOf mem datalen l)).length := by omega
    have hend : (endQname len s).2 = s.qname.put (text (labelsOf mem datalen l)).length 0 := by
      rw [endQname, if_neg hvalid, hplace]
    rw [hend]
    refine ⟨?_, if_pos rfl, by omega⟩
    rw [upTo_put _ _ (Nat.le_refl _),
      ← take_upTo s.qname (n := (dotted (labelsOf mem datalen l)).length) (by omega),
      hbytes, hdotted]
    simp

/-! ## Names of the format -/

theorem NameAt.lt_length {msg : Bytes} {i : Nat} {n : Name}
    (h : NameAt msg i n) : i < msg.length := by
  cases h with
  | zero hbyte => exact (List.getElem?_eq_some_iff.mp hbyte).1
  | label _ _ hbyte => exact (List.getElem?_eq_some_iff.mp hbyte).1
  | pointer hbyte => exact (List.getElem?_eq_some_iff.mp hbyte).1

/-- The labels in place lie between the start of the name and its zero byte or pointer. -/
theorem NameAt.le_stop {msg : Bytes} {i : Nat} {n : Name} (h : NameAt msg i n) :
    i + 2 * n.inPlace + (if n.compressed then 2 else 1) ≤ n.stop := by
  induction h with
  | zero => simp
  | @label i label n hne _ _ _ _ ih =>
    have hpos := List.length_pos_iff.mpr hne
    simp only
    omega
  | pointer => simp

theorem NameAt.stop_le {msg : Bytes} {i : Nat} {n : Name} (h : NameAt msg i n) :
    n.stop ≤ msg.length := by
  induction h with
  | zero hbyte => exact (List.getElem?_eq_some_iff.mp hbyte).1
  | label _ _ _ _ _ ih => exact ih
  | pointer _ _ hlow => exact (List.getElem?_eq_some_iff.mp hlow).1

theorem memoryOf_of_getElem? {msg : Bytes} {after : Memory} {i : Nat} {c : UInt8}
    (h : msg[i]? = some c) :
    memoryOf msg after i = c := by
  obtain ⟨hlt, hc⟩ := List.getElem?_eq_some_iff.mp h
  rw [memoryOf, dif_pos hlt, hc]

theorem range'_memoryOf {msg : Bytes} {after : Memory} {i : Nat} {label : Bytes}
    (h : (msg.drop i).take label.length = label) (hlen : i + label.length ≤ msg.length) :
    (List.range' i label.length).map (memoryOf msg after) = label := by
  rw [← h]
  apply List.ext_getElem
  · simp
  · intro j hj _
    have hj : j < label.length := by
      rw [h] at hj
      simpa using hj
    simp [memoryOf, show i + j < msg.length by omega]

end

section

variable {msg : Bytes} {after : Memory}

theorem place_toNat {i : Nat} (hmsg : msg.length < 2 ^ 16) (hi : i < msg.length) :
    (BitVec.ofNat 16 i).toNat = i := by
  rw [BitVec.toNat_ofNat]
  omega

/-- The byte at a place of the message. -/
theorem byte_of_place {i : Nat} {c : UInt8} (hmsg : msg.length < 2 ^ 16)
    (hbyte : msg[i]? = some c) :
    memoryOf msg after (BitVec.ofNat 16 i).toNat = c := by
  rw [place_toNat hmsg (List.getElem?_eq_some_iff.mp hbyte).1]
  exact memoryOf_of_getElem? hbyte

/-- A length byte is no pointer. -/
theorem not_isPointer_of_label {i : Nat} {label : Bytes} (noff : BitVec 8)
    (hmsg : msg.length < 2 ^ 16) (hlen : label.length ≤ 63)
    (hbyte : msg[i]? = some (UInt8.ofNat label.length)) :
    ¬ isPointer (memoryOf msg after) (BitVec.ofNat 16 i, noff) := by
  have hsmall : ∀ k : Fin 64, UInt8.ofNat k &&& 0xC0 = 0 := by decide +kernel
  rw [isPointer, byte_of_place hmsg hbyte]
  exact fun hp => hp (hsmall ⟨label.length, by omega⟩)

/-- A label of the message, with room for it and its dot. -/
theorem labelAt_of_label {i : Nat} {label : Bytes} (noff : BitVec 8) (hmsg : msg.length < 2 ^ 16)
    (hne : label ≠ []) (hlen : label.length ≤ 63)
    (hbyte : msg[i]? = some (UInt8.ofNat label.length))
    (hbytes : (msg.drop (i + 1)).take label.length = label)
    (hend : i + 1 + label.length < msg.length) (hfits : noff.toNat + label.length ≤ dnsQnameMax) :
    labelAt (memoryOf msg after) msg.length (BitVec.ofNat 16 i, noff) = some label := by
  have hpos := List.length_pos_iff.mpr hne
  have hplace := place_toNat (i := i) hmsg (by omega)
  have hsize : (UInt8.ofNat label.length).toNat = label.length := by
    rw [UInt8.toNat_ofNat']
    omega
  rw [labelAt, byte_of_place hmsg hbyte, hsize, if_pos]
  · rw [hplace, range'_memoryOf hbytes (by omega)]
  · refine ⟨fun h0 => ?_, not_isPointer_of_label noff hmsg hlen hbyte, by rw [hplace]; omega, hfits⟩
    rw [h0] at hsize
    exact absurd hsize (by rw [UInt8.toNat_zero]; omega)

/-- The walk over a name of the format, which has no more than 255 bytes with a dot behind each
label. -/
theorem walk_of_name (after : Memory) {i : Nat} {n : Name} (hmsg : msg.length < 2 ^ 16)
    (h : NameAt msg i n) (noff : BitVec 8)
    (hfits : noff.toNat + (dotted n.labels).length ≤ dnsQnameMax) :
    ∃ l q, Walk (next (memoryOf msg after) msg.length)
    (BitVec.ofNat 16 i, noff) l ∧ l.getLast? = some q ∧
      labelsOf (memoryOf msg after) msg.length l = n.labels ∧
      l.any (isPointer (memoryOf msg after) ·) = n.compressed ∧
      memoryOf msg after q.1.toNat = 0 ∧ (n.compressed = false → q.1.toNat + 1 = n.stop) := by
  induction h generalizing noff with
  | @zero i hbyte =>
    have hplace := place_toNat hmsg (NameAt.zero hbyte).lt_length
    have hzero : memoryOf msg after (BitVec.ofNat 16 i).toNat = 0 := byte_of_place hmsg hbyte
    have hpointer := not_isPointer_of_zero (p := (BitVec.ofNat 16 i, noff)) hzero
    have hnext : next (memoryOf msg after) msg.length (BitVec.ofNat 16 i, noff) = none :=
      next_of_zero hzero
    refine ⟨_, _, .stop hnext, rfl, ?_, by simp [hpointer], hzero, fun _ => congrArg (· + 1) hplace⟩
    rw [labelsOf, stored_stop hnext]
    rfl
  | @label i label n hne hlen hbyte hbytes hrest ih =>
    have hcount : noff.toNat + (label.length + 1) + (dotted n.labels).length ≤ dnsQnameMax := by
      have hdotted : (dotted (label :: n.labels)).length =
          label.length + 1 + (dotted n.labels).length :=
        length_dotted_cons label n.labels
      have hfits : noff.toNat + (dotted (label :: n.labels)).length ≤ dnsQnameMax := hfits
      omega
    have hpointer : ¬ isPointer (memoryOf msg after) (BitVec.ofNat 16 i, noff) :=
      not_isPointer_of_label noff hmsg hlen hbyte
    have hlabel : labelAt (memoryOf msg after) msg.length (BitVec.ofNat 16 i, noff) = some label :=
      labelAt_of_label noff hmsg hne hlen hbyte hbytes hrest.lt_length (by omega)
    have hnext : next (memoryOf msg after) msg.length (BitVec.ofNat 16 i, noff) =
        some (BitVec.ofNat 16 (i + 1 + label.length),
          noff + BitVec.ofNat 8 (label.length + 1)) := by
      rw [next, if_neg hpointer, hlabel, Option.map_some, behind, Nat.add_assoc i, Nat.add_comm 1,
        BitVec.ofNat_add i]
    have hnoff : (noff + BitVec.ofNat 8 (label.length + 1)).toNat =
        noff.toNat + (label.length + 1) := by
      have hmax : dnsQnameMax = 255 := rfl
      rw [BitVec.toNat_add, BitVec.toNat_ofNat]
      omega
    obtain ⟨l, q, hwalk, hlast, hlabels, hany, hzero, hstop⟩ :=
      ih (noff + BitVec.ofNat 8 (label.length + 1)) (by omega)
    refine ⟨_, q, .step hnext hwalk, ?_, ?_, ?_, hzero, hstop⟩
    · rw [List.getLast?_cons_of_ne_nil hwalk.ne_nil, hlast]
    · rw [labelsOf, stored_label l hpointer hlabel, List.map_cons]
      exact congrArg (label :: ·) hlabels
    · simpa [hpointer] using hany
  | @pointer i high low n hhigh hbits hlow hrest ih =>
    have hmem : memoryOf msg after (BitVec.ofNat 16 i).toNat = high := byte_of_place hmsg hhigh
    have hmem' : memoryOf msg after ((BitVec.ofNat 16 i).toNat + 1) = low := by
      rw [place_toNat hmsg (NameAt.pointer hhigh hbits hlow hrest).lt_length]
      exact memoryOf_of_getElem? hlow
    have hpointer : isPointer (memoryOf msg after) (BitVec.ofNat 16 i, noff) := by
      rw [isPointer, hmem, hbits]
      decide
    have hnext : next (memoryOf msg after) msg.length (BitVec.ofNat 16 i, noff) =
        some (BitVec.ofNat 16 ((high &&& 0x3F).toNat * 256 + low.toNat), noff) := by
      rw [next, if_pos hpointer, target, hmem, hmem']
    obtain ⟨l, q, hwalk, hlast, hlabels, -, hzero, -⟩ := ih noff hfits
    refine ⟨_, q, .step hnext hwalk, ?_, ?_, by simp [hpointer], hzero, fun h => by cases h⟩
    · rw [List.getLast?_cons_of_ne_nil hwalk.ne_nil, hlast]
    · rw [labelsOf_pointer l hpointer, hlabels]

/-- Where the parser takes a name of the format to end. -/
theorem endOf_name (after : Memory) {i : Nat} {n : Name} (hmsg : msg.length < 2 ^ 16)
    (h : NameAt msg i n) (hne : n.labels ≠ []) (hlen : (text n.labels).length ≤ 253) :
    ∃ l, Walk (next (memoryOf msg after) msg.length) (BitVec.ofNat 16 i, 0) l ∧
      labelsOf (memoryOf msg after) msg.length l = n.labels ∧
      endOf (memoryOf msg after) (BitVec.ofNat 16 i) l =
        if n.compressed then ((i + 2 : Nat) : Int) else n.stop := by
  have hdotted : (dotted n.labels).length = (text n.labels).length + 1 := by
    rw [dotted_text hne]
    simp
  have hmax : dnsQnameMax = 255 := rfl
  obtain ⟨l, q, hwalk, hlast, hlabels, hany, hzero, hstop⟩ := walk_of_name after hmsg h 0
    (by simp only [BitVec.ofNat_eq_ofNat, BitVec.toNat_ofNat]; omega)
  obtain ⟨⟨q', hq', hcount⟩, -⟩ := walk_stores hwalk ⟨fun _ => 0, []⟩
  rw [hlast] at hq'
  cases hq'
  have hnoff : q.2 ≠ 0 := by
    intro h0
    have htoNat := congrArg BitVec.toNat hcount
    rw [h0, hlabels, BitVec.toNat_add, BitVec.toNat_ofNat] at htoNat
    simp at htoNat
    omega
  refine ⟨l, hwalk, hlabels, ?_⟩
  have hle := h.le_stop
  have hmax := h.stop_le
  have hvalid : ¬ (memoryOf msg after q.1.toNat ≠ 0 ∨ q.2 = 0) :=
    fun hor => hor.elim (fun hp => hp hzero) hnoff
  rw [endOf, hlast]
  simp only [if_neg hvalid, hany]
  cases hcompressed : n.compressed with
  | true =>
    have hoff : (BitVec.ofNat 16 i + 2).toNat = i + 2 := by
      rw [hcompressed, if_pos rfl] at hle
      rw [BitVec.toNat_add, BitVec.toNat_ofNat]
      simp only [BitVec.ofNat_eq_ofNat, BitVec.toNat_ofNat]
      omega
    simp only [if_true, hoff]
  | false =>
    have hptr : (q.1 + 1).toNat = n.stop := by
      have hend := hstop hcompressed
      rw [BitVec.toNat_add]
      simp only [BitVec.ofNat_eq_ofNat, BitVec.toNat_ofNat]
      omega
    simp only [Bool.false_eq_true, if_false, hptr]

/-- Decoding is right exactly if no label precedes the pointer of a compressed name. -/
theorem decoded_name_iff {i : Nat} {n : Name} (hmsg : msg.length < 2 ^ 16) (h : NameAt msg i n)
    (hne : n.labels ≠ []) (hlen : (text n.labels).length ≤ 253) :
    Decoded (memoryOf msg after) msg.length i n ↔ (n.compressed = true → n.inPlace = 0) := by
  obtain ⟨l, hwalk, hlabels, hend⟩ := endOf_name after hmsg h hne hlen
  have hle := h.le_stop
  constructor
  · intro hdecoded hcompressed
    obtain ⟨turns, b, hvalue, -⟩ := hdecoded.name ⟨fun _ => 0, []⟩
    have hstop := getQname_walk hwalk hvalue
    rw [hend, if_pos hcompressed] at hstop
    rw [if_pos hcompressed] at hle
    simp only at hstop
    omega
  · intro hplace
    have hstop : endOf (memoryOf msg after) (BitVec.ofNat 16 i) l = n.stop := by
      rw [hend]
      split
      · rename_i hcompressed
        cases h with
        | zero => cases hcompressed
        | label => exact absurd (hplace hcompressed) (Nat.succ_ne_zero _)
        | pointer => rfl
      · rfl
    constructor
    · intro qname
      have hends := getQname_ends_iff.mpr
        (loop_ends hwalk (s := startQname (BitVec.ofNat 16 i) qname) rfl (Nat.le_refl _))
      obtain ⟨r, hr⟩ := Option.ne_none_iff_exists'.mp hends
      have hr1 := (getQname_walk hwalk hr).trans hstop
      have hstored := name_stored_iff hwalk hr (by rw [hr1]; exact Int.natCast_nonneg _)
      rw [hlabels, dotted_text hne] at hstored
      refine ⟨l.length, r.2, ?_, hstored.mpr ?_⟩
      · rw [hr, ← hr1]
      · have hmax : dnsQnameMax = 255 := rfl
        simp only [List.length_append, List.length_cons, List.length_nil]
        omega
    · intro turns qname r hvalue
      rw [getQname_walk hwalk hvalue, hstop, Int.toNat_natCast]

end

/-- Names of the format are decoded right exactly if no label precedes their pointer, and accepted
names are stored right exactly if they fit the buffer. -/
theorem qname_decoded_iff (msg : Bytes) (after : Memory) :
    (∀ i n, msg.length < 2 ^ 16 → NameAt msg i n → n.labels ≠ [] → (text n.labels).length ≤ 253 →
      (Decoded (memoryOf msg after) msg.length i n ↔ (n.compressed = true → n.inPlace = 0))) ∧
    (∀ turns off qname r, (getQname msg.length turns off qname).value (memoryOf msg after) =
      some r → 0 ≤ r.1 →
      ∃ l, Walk (next (memoryOf msg after) msg.length) (off, 0) l ∧
        (Stored r.2 (text (labelsOf (memoryOf msg after) msg.length l)) ↔
          (dotted (labelsOf (memoryOf msg after) msg.length l)).length ≤ dnsQnameMax)) := by
  constructor
  · intro i n hmsg h hne hlen
    exact decoded_name_iff hmsg h hne hlen
  · intro turns off qname r hvalue hr
    have hend := getQname_ends_iff.mp (by rw [hvalue]; exact Option.some_ne_none r)
    obtain ⟨l, hl⟩ := walk_of_loop hend
    exact ⟨l, hl, name_stored_iff hl hvalue hr⟩

/-- The name `a.b`, and behind it a pointer to that name. -/
def repeated : Bytes := [1, 97, 1, 98, 0, 0xC0, 0]

theorem repeated_walk :
    Walk (next (memoryOf repeated fun _ => 0) repeated.length) (5, 0)
    [(5, 0), (0, 0), (2, 2), (4, 4)] :=
  .step (by decide) (.step (by decide) (.step (by decide) (.stop (by decide))))

theorem qname_decoded_pointer :
    Decoded (memoryOf repeated fun _ => 0) repeated.length 5 ⟨[[97], [98]], 0, true, 7⟩ ∧
    ∃ turns r, (getQname repeated.length turns 5 ⟨fun _ => 0, []⟩).value
      (memoryOf repeated fun _ => 0) = some r ∧
      Stored r.2 (text [[97], [98]]) := by
  obtain ⟨hnames, hstores⟩ := qname_decoded_iff repeated fun _ => 0
  have hname : NameAt repeated 5 ⟨[[97], [98]], 0, true, 7⟩ :=
    @NameAt.pointer repeated 5 0xC0 0 ⟨[[97], [98]], 2, false, 5⟩ rfl rfl rfl
      (.label (n := ⟨[[98]], 1, false, 5⟩) (by decide) (by decide) rfl rfl
        (.label (n := ⟨[], 0, false, 5⟩) (by decide) (by decide) rfl rfl (.zero rfl)))
  refine ⟨(hnames 5 _ (by decide) hname (by decide) (by decide)).mpr fun _ => rfl, ?_⟩
  have hends := getQname_ends_iff.mpr
    (loop_ends repeated_walk (s := startQname 5 ⟨fun _ => 0, []⟩) rfl (Nat.le_refl _))
  obtain ⟨r, hr⟩ := Option.ne_none_iff_exists'.mp hends
  have hpos : 0 ≤ r.1 := by
    rw [getQname_walk repeated_walk hr]
    decide
  obtain ⟨l, hl, hstored⟩ := hstores _ 5 _ r hr hpos
  rw [hl.unique repeated_walk] at hstored
  exact ⟨_, r, hr, hstored.mpr (by decide)⟩

/-- The label `b`, and behind it `a` with a pointer to `b`. -/
def pointed : Bytes := [1, 98, 0, 1, 97, 0xC0, 0]

/-- Four labels of 63 bytes, and one behind them. -/
def wrapped : Bytes :=
  (List.replicate 4 (63 :: List.replicate 63 97)).flatten ++ [1, 98, 0]

theorem wrapped_walk : Walk (next (memoryOf wrapped fun _ => 0) wrapped.length) (0, 0)
    [(0, 0), (64, 64), (128, 128), (192, 192), (256, 0), (258, 2)] :=
  .step (by decide +kernel)
    (.step (by decide +kernel) (.step (by decide +kernel) (.step (by decide +kernel)
    (.step (by decide +kernel) (.stop (by decide +kernel))))))

/-- Of `a.b` with its pointer the place in the middle of the name is returned, and of the long name
`b` is stored. -/
theorem qname_not_decoded :
    (∃ n, NameAt pointed 3 n ∧ n.labels = [[97], [98]] ∧
      ¬ Decoded (memoryOf pointed fun _ => 0) pointed.length 3 n) ∧
    ∃ turns r l, (getQname wrapped.length turns 0 ⟨fun _ => 0, []⟩).value
      (memoryOf wrapped fun _ => 0) = some r ∧ 0 ≤ r.1 ∧
      Walk (next (memoryOf wrapped fun _ => 0) wrapped.length) (0, 0) l ∧
      ¬ Stored r.2 (text (labelsOf (memoryOf wrapped fun _ => 0) wrapped.length l)) := by
  constructor
  · have hname : NameAt pointed 3 ⟨[[97], [98]], 1, true, 7⟩ :=
      .label (n := ⟨[[98]], 0, true, 7⟩) (by decide) (by decide) rfl rfl
        (@NameAt.pointer pointed 5 0xC0 0 ⟨[[98]], 1, false, 3⟩ rfl rfl rfl
          (.label (n := ⟨[], 0, false, 3⟩) (by decide) (by decide) rfl rfl (.zero rfl)))
    refine ⟨_, hname, rfl, fun hdecoded => ?_⟩
    have hplace := (decoded_name_iff (by decide) hname (by decide) (by decide)).mp hdecoded rfl
    cases hplace
  · have hends := getQname_ends_iff.mpr
      (loop_ends wrapped_walk (s := startQname 0 ⟨fun _ => 0, []⟩) rfl (Nat.le_refl _))
    obtain ⟨r, hr⟩ := Option.ne_none_iff_exists'.mp hends
    have hpos : 0 ≤ r.1 := by
      rw [getQname_walk wrapped_walk hr]
      decide +kernel
    refine ⟨6, r, _, hr, hpos, wrapped_walk, fun hstored => ?_⟩
    have hfits := (name_stored_iff wrapped_walk hr hpos).mp hstored
    revert hfits
    decide +kernel

end PdaNetClient.Dns
