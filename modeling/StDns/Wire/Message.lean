import StDns.Lib.BigEndian
import StDns.Wire.Name

/-!
# Messages

A message is a header, questions and resource records, one behind the other. `ResponseMessage.At d` says that the
bytes `d` write it: every question with an uncompressed name, every record wholly inside `d`, and the data of a record
of type `CNAME` a name that takes all of it.
-/

namespace StDns.Wire

open Lib

/-- A question with an uncompressed name. -/
structure Question where
  labels : List Bytes
  type : Nat
  cls : Nat
  deriving DecidableEq

namespace Question

def bytes (q : Question) : Bytes := labelBytes q.labels ++ [0] ++ (beBytes 2 q.type ++ beBytes 2 q.cls)

def len (q : Question) : Nat := labelsLen q.labels + 1 + 4

@[simp] theorem length_bytes (q : Question) : q.bytes.length = q.len := by
  simp [bytes, len]

/-- `d` has the question at offset `i`. -/
def At (d : Bytes) (i : Nat) (q : Question) : Prop :=
  (∀ l ∈ q.labels, LabelOk l) ∧ q.type < 2 ^ 16 ∧ q.cls < 2 ^ 16 ∧ Holds d i q.bytes

instance (d : Bytes) (i : Nat) (q : Question) : Decidable (q.At d i) := inferInstanceAs (Decidable (_ ∧ _ ∧ _ ∧ _))

end Question

/-- `d` has these questions from offset `i` on. -/
def QuestionsAt (d : Bytes) : Nat → List Question → Prop
  | _, [] => True
  | i, q :: qs => q.At d i ∧ QuestionsAt d (i + q.len) qs

instance decidableQuestionsAt (d : Bytes) : (i : Nat) → (qs : List Question) → Decidable (QuestionsAt d i qs)
  | _, [] => inferInstanceAs (Decidable True)
  | i, q :: qs =>
    have := decidableQuestionsAt d (i + q.len) qs
    inferInstanceAs (Decidable (_ ∧ _))

theorem questionsAt_iff {d : Bytes} : ∀ {i : Nat} {qs : List Question},
    QuestionsAt d i qs ↔ (∀ q ∈ qs, (∀ l ∈ q.labels, LabelOk l) ∧ q.type < 2 ^ 16 ∧ q.cls < 2 ^ 16) ∧
      Holds d i (qs.flatMap Question.bytes)
  | i, [] => by simp [QuestionsAt]
  | i, q :: qs => by
    rw [QuestionsAt, questionsAt_iff, Question.At, List.flatMap_cons, holds_append, Question.length_bytes,
      List.forall_mem_cons]
    tauto

/-- The identifier and the questions of a message. -/
structure QueryMessage where
  id : Nat
  questions : List Question

namespace QueryMessage

/-- The bytes that the questions take. -/
def questionsLen (q : QueryMessage) : Nat := (q.questions.map Question.len).sum

/-- `d` asks these questions, at least one, whatever its flags are and whatever stands behind them. -/
def At (d : Bytes) (q : QueryMessage) : Prop :=
  d.length ≤ 1024 ∧ q.questions ≠ [] ∧ q.questions.length < 2 ^ 16 ∧ q.id < 2 ^ 16 ∧ Holds d 0 (beBytes 2 q.id) ∧
    Holds d 4 (beBytes 2 q.questions.length) ∧ QuestionsAt d 12 q.questions

instance (d : Bytes) (q : QueryMessage) : Decidable (q.At d) :=
  inferInstanceAs (Decidable (_ ∧ _ ∧ _ ∧ _ ∧ _ ∧ _ ∧ _))

end QueryMessage

/-- The record types that the results name. -/
def typeA : Nat := 1
def typeCname : Nat := 5

/-- A resource record; `cname` is the name that its data are when it is of type `CNAME`. -/
structure Record where
  name : WireName
  type : Nat
  cls : Nat
  ttl : Nat
  rdata : Bytes
  cname : Option WireName := none

namespace Record

/-- The bytes between the owner name and the data. -/
def fixedBytes (r : Record) : Bytes :=
  beBytes 2 r.type ++ beBytes 2 r.cls ++ beBytes 4 r.ttl ++ beBytes 2 r.rdata.length

@[simp] theorem length_fixedBytes (r : Record) : r.fixedBytes.length = 10 := by
  simp [fixedBytes]

def len (r : Record) : Nat := r.name.ownLen + 10 + r.rdata.length

/-- `d` has the record at offset `i`. -/
def At (d : Bytes) (i : Nat) (r : Record) : Prop :=
  r.name.At d i ∧ r.type < 2 ^ 16 ∧ r.cls < 2 ^ 16 ∧ r.ttl < 2 ^ 32 ∧ r.rdata.length < 2 ^ 16 ∧
    Holds d (i + r.name.ownLen) (r.fixedBytes ++ r.rdata) ∧ (r.type = typeCname ↔ r.cname.isSome = true) ∧
    ∀ t ∈ r.cname, t.At d (i + r.name.ownLen + 10) ∧ t.ownLen = r.rdata.length

instance (d : Bytes) (i : Nat) (r : Record) : Decidable (r.At d i) :=
  inferInstanceAs (Decidable (_ ∧ _ ∧ _ ∧ _ ∧ _ ∧ _ ∧ _ ∧ _))

/-- A record with the four bytes of an address. -/
def IsAddress (r : Record) : Prop := r.type = typeA ∧ r.rdata.length = 4

instance (r : Record) : Decidable r.IsAddress := inferInstanceAs (Decidable (_ ∧ _))

/-- A record lies inside its message. -/
theorem At.length_le {d : Bytes} {i : Nat} {r : Record} (h : r.At d i) : i + r.len ≤ d.length := by
  obtain ⟨-, -, -, -, -, hh, -⟩ := h
  have hl : (r.fixedBytes ++ r.rdata).length = 10 + r.rdata.length := by simp
  have hle := hh.length_le (List.length_pos_iff.1 (by omega))
  rw [len]
  omega

end Record

/-- `d` has these records from offset `i` on. -/
def RecordsAt (d : Bytes) : Nat → List Record → Prop
  | _, [] => True
  | i, r :: rs => r.At d i ∧ RecordsAt d (i + r.len) rs

instance decidableRecordsAt (d : Bytes) : (i : Nat) → (rs : List Record) → Decidable (RecordsAt d i rs)
  | _, [] => inferInstanceAs (Decidable True)
  | i, r :: rs =>
    have := decidableRecordsAt d (i + r.len) rs
    inferInstanceAs (Decidable (_ ∧ _))

structure ResponseMessage where
  id : Nat
  flags : Nat
  authorities : Nat
  additionals : Nat
  questions : List Question
  answers : List Record

namespace ResponseMessage

def headerBytes (r : ResponseMessage) : Bytes :=
  beBytes 2 r.id ++ beBytes 2 r.flags ++ beBytes 2 r.questions.length ++ beBytes 2 r.answers.length ++
    beBytes 2 r.authorities ++ beBytes 2 r.additionals

/-- The bytes that the questions take. -/
def questionsLen (r : ResponseMessage) : Nat := (r.questions.map Question.len).sum

/-- `RCODE`: the low four bits of the flags. -/
def rcode (r : ResponseMessage) : Nat := r.flags % 16

/-- `d` writes the message, possibly with more sections behind the answers. -/
def At (d : Bytes) (r : ResponseMessage) : Prop :=
  r.flags < 2 ^ 16 ∧ r.questions.length < 2 ^ 16 ∧ r.answers.length < 2 ^ 16 ∧ Holds d 0 r.headerBytes ∧
    QuestionsAt d 12 r.questions ∧ RecordsAt d (12 + r.questionsLen) r.answers

instance (d : Bytes) (r : ResponseMessage) : Decidable (r.At d) :=
  inferInstanceAs (Decidable (_ ∧ _ ∧ _ ∧ _ ∧ _ ∧ _))

/-- The addresses of the message: the data of its address records, in their order. -/
def addresses (r : ResponseMessage) : List Nat :=
  (r.answers.filter fun a => a.IsAddress).map fun a => beNat a.rdata

end ResponseMessage

end StDns.Wire
