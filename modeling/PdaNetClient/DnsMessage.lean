import PdaNetClient.DnsName
import PdaNetClient.TcpEncode

/-!
# DNS messages

Queries and responses in the format of the protocol, with one question, whose names are
written out or are nothing but a pointer. The parser stays inside of them and comes to their
end, or to a root name, which has no labels and which it takes for a wrong one; a query is
recognized only if nothing stands behind its question.
-/
namespace PdaNetClient.Dns

open Reading Walks
open Http (Memory memoryOf)
open Ip (Read be16 be32 be16Bytes be32Bytes)

set_option autoImplicit false

/-! ## The format -/

/-- The name is not too long, and has no label in front of its pointer. -/
structure Name.Readable (n : Name) : Prop where
  short : (text n.labels).length ≤ 253
  alone : n.compressed = true → n.inPlace = 0

/-- What `get_qname` returns for it; the name of the root has no labels. -/
def Name.returned (n : Name) : Int := if n.labels = [] then -1 else n.stop

structure Resource where
  name : Name
  qtype : BitVec 16
  qclass : BitVec 16
  ttl : U32
  data : Bytes

namespace Resource

/-- The fields between the name and the data. -/
def fixed (r : Resource) : Bytes :=
  be16Bytes r.qtype.toNat ++ be16Bytes r.qclass.toNat ++ be32Bytes r.ttl ++ be16Bytes r.data.length

/-- What the parser makes of them. -/
def fields (r : Resource) : RecordFields := ⟨r.qtype.toNat, r.qclass.toNat, r.ttl, r.data.length⟩

end Resource

/-- The flags and the counts of the header, and one question behind it. -/
structure Headed (msg : Bytes) (qr : UInt8) (answers : Nat) (question : Name)
    (qtype qclass : BitVec 16) : Prop where
  flags : ∃ flags, msg[2]? = some flags ∧ headerIs flags qr
  counts : be16Bytes 1 ++ be16Bytes answers <+: msg.drop 4
  answers : answers < 2 ^ 16
  name : NameAt msg sizeofDnsHeader question
  readable : question.Readable
  fields : be16Bytes qtype.toNat ++ be16Bytes qclass.toNat <+: msg.drop question.stop

section

variable {msg : Bytes} (after : Memory)

/-! ## Bytes of the message -/

theorem mem_of_part {part : Bytes} {i : Nat} (hi : i ≤ msg.length) (h : part <+: msg.drop i) :
    i + part.length ≤ msg.length ∧ ∃ rest, ∀ j, memoryOf msg after (i + j) =
      memoryOf (part ++ rest) after j := by
  obtain ⟨rest, hrest⟩ := h
  have hlen : part.length + rest.length = msg.length - i := by
    rw [← List.length_append, hrest, List.length_drop]
  refine ⟨by omega, rest, fun j => ?_⟩
  have hsplit := Ip.memoryOf_append (msg.take i) (msg.drop i) after j
  rw [List.take_append_drop, List.length_take, Nat.min_eq_left hi] at hsplit
  rw [hsplit, hrest]

theorem be16_of_part {n i : Nat} (hn : n < 2 ^ 16) (hi : i ≤ msg.length)
    (h : be16Bytes n <+: msg.drop i) :
    (be16 i).value (memoryOf msg after) = n := by
  obtain ⟨-, rest, hmem⟩ := mem_of_part after hi h
  have h0 : memoryOf msg after i = UInt8.ofNat (n / 256) := hmem 0
  rw [Ip.value_be16, h0, hmem 1]
  exact Ip.be16_bytes hn

variable {qr : UInt8} {answers : Nat} {question : Name} {qtype qclass : BitVec 16}

theorem parts_of_part {xs ys : Bytes} {i : Nat} (h : xs ++ ys <+: msg.drop i) :
    xs <+: msg.drop i ∧ ys <+: msg.drop (i + xs.length) := by
  refine ⟨(List.prefix_append xs ys).trans h, ?_⟩
  obtain ⟨rest, hrest⟩ := h
  rw [← List.drop_drop, ← hrest, List.append_assoc, List.drop_left]
  exact List.prefix_append ys rest

theorem Headed.longer (h : Headed msg qr answers question qtype qclass) :
    sizeofDnsHeader + 1 ≤ msg.length :=
  h.name.lt_length

theorem Headed.counted (h : Headed msg qr answers question qtype qclass) :
    (be16 4).value (memoryOf msg after) = 1 ∧ (be16 6).value (memoryOf msg after) = answers := by
  have hlonger := h.longer
  have hsize : sizeofDnsHeader = 12 := rfl
  obtain ⟨hone, hanswers⟩ := parts_of_part h.counts
  exact ⟨be16_of_part after (by decide) (by omega) hone,
    be16_of_part after h.answers (by omega) hanswers⟩

end

end PdaNetClient.Dns
