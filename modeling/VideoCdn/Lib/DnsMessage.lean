import Mathlib.Tactic.Common

/-!
# DNS messages on the wire

A reader of DNS messages that follows their format and no particular program: a header of twelve
bytes, the questions, and the resource records of the answer section.

* `skipName` — what is behind an encoded name: labels with their lengths, or a pointer.
* `skipQuestions`, `readRecords` — the question section and the answer section.
* `HasRcode` — the response code in the header.
* `CarriesA` — a response without an error and with an address record in its answer section.
-/

set_option autoImplicit false

namespace Dns

/-- The number in two bytes, in network byte order. -/
def be16 (hi lo : UInt8) : Nat := 256 * hi.toNat + lo.toNat

/-- What is left behind the name; `label` is the number of bytes left of its present label. -/
def skipName : Nat → List UInt8 → Option (List UInt8)
  | _, [] => none
  | label + 1, _ :: s => skipName label s
  | 0, c :: s =>
    if c = 0 then some s
    else if c < 64 then skipName c.toNat s
    else if 192 ≤ c then
      -- a pointer has a second byte and ends the name
      match s with
      | [] => none
      | _ :: s => some s
    else none

def skipQuestions : Nat → List UInt8 → Option (List UInt8)
  | 0, s => some s
  | n + 1, s =>
    match skipName 0 s with
    | none => none
    | some s => if s.length < 4 then none else skipQuestions n (s.drop 4)

structure Record where
  type : Nat
  rclass : Nat
  rdata : List UInt8
  deriving DecidableEq, Repr

def readRecord (s : List UInt8) : Option (Record × List UInt8) :=
  match skipName 0 s with
  | some (t₁ :: t₀ :: c₁ :: c₀ :: _ :: _ :: _ :: _ :: l₁ :: l₀ :: s) =>
    if s.length < be16 l₁ l₀ then none
    else some (⟨be16 t₁ t₀, be16 c₁ c₀, s.take (be16 l₁ l₀)⟩, s.drop (be16 l₁ l₀))
  | _ => none

def readRecords : Nat → List UInt8 → Option (List Record)
  | 0, _ => some []
  | n + 1, s =>
    match readRecord s with
    | none => none
    | some (r, s) => (readRecords n s).map (r :: ·)

/-- The address record of a host: type `A`, class `IN`. -/
def Record.isA (r : Record) : Bool := r.type = 1 && r.rclass = 1 && r.rdata.length = 4

/-- The answer section of a message. -/
def answers : List UInt8 → Option (List Record)
  | _ :: _ :: _ :: _ :: q₁ :: q₀ :: a₁ :: a₀ :: _ :: _ :: _ :: _ :: s =>
    (skipQuestions (be16 q₁ q₀) s).bind (readRecords (be16 a₁ a₀))
  | _ => none

/-- The message has a header, and the response code `rcode` in the low bits of its fourth byte. -/
def HasRcode (rcode : Nat) (message : List UInt8) : Prop :=
  12 ≤ message.length ∧ ∃ flags, message[3]? = some flags ∧ flags.toNat % 16 = rcode

/-- The message is a response, in the first bit of its third byte. -/
def IsResponse (message : List UInt8) : Prop := ∃ flags, message[2]? = some flags ∧ 128 ≤ flags

/-- A response without an error, with an address in its answer section. -/
def CarriesA (message : List UInt8) : Prop :=
  IsResponse message ∧ HasRcode 0 message ∧
    ∃ records, answers message = some records ∧ ∃ r ∈ records, r.isA = true

/-! ## Names -/

/-- A length byte is followed by its label. -/
theorem skipName_length {c : UInt8} (hzero : c ≠ 0) (hsmall : c < 64) (s : List UInt8) :
    skipName 0 (c :: s) = skipName c.toNat s := by
  rw [skipName.eq_def]
  dsimp only
  rw [if_neg hzero, if_pos hsmall]

/-- The rest of a label is skipped. -/
theorem skipName_label (label s : List UInt8) : skipName label.length (label ++ s) = skipName 0 s := by
  induction label with
  | nil => rfl
  | cons c label ih =>
    rw [List.length_cons, List.cons_append, skipName, ih]

/-- A name in the form of its labels. -/
def encodeName : List (List UInt8) → List UInt8
  | [] => [0]
  | label :: labels => UInt8.ofNat label.length :: label ++ encodeName labels

/-- The length of a label as a byte. -/
theorem length_byte {n : Nat} (hpos : 0 < n) (hlt : n < 64) :
    (UInt8.ofNat n).toNat = n ∧ UInt8.ofNat n ≠ 0 ∧ UInt8.ofNat n < 64 := by
  have hval : (UInt8.ofNat n).toNat = n := by
    rw [UInt8.toNat_ofNat']
    omega
  refine ⟨hval, ?_, ?_⟩
  · intro h
    rw [h] at hval
    simp at hval
    omega
  · rw [UInt8.lt_iff_toNat_lt, hval]
    exact hlt

/-- **A name is skipped as a whole**, whatever follows it. -/
theorem skipName_encodeName {labels : List (List UInt8)}
    (hlabels : ∀ label ∈ labels, label ≠ [] ∧ label.length < 64) (s : List UInt8) :
    skipName 0 (encodeName labels ++ s) = some s := by
  induction labels with
  | nil => simp [encodeName, skipName]
  | cons label labels ih =>
    obtain ⟨hne, hlt⟩ := hlabels label List.mem_cons_self
    obtain ⟨hval, hzero, hsmall⟩ := length_byte (List.length_pos_iff.mpr hne) hlt
    rw [encodeName, List.cons_append, List.cons_append, skipName_length hzero hsmall, hval,
      List.append_assoc, skipName_label]
    exact ih (fun l hl => hlabels l (List.mem_cons_of_mem _ hl))

/-- Behind the header stand the questions, and then the answers. -/
theorem answers_header {i₁ i₀ f₁ f₀ q₁ q₀ a₁ a₀ n₁ n₀ r₁ r₀ : UInt8} {questions records : Nat}
    (hq : be16 q₁ q₀ = questions) (ha : be16 a₁ a₀ = records) (s : List UInt8) :
    answers ([i₁, i₀, f₁, f₀, q₁, q₀, a₁, a₀, n₁, n₀, r₁, r₀] ++ s) =
      (skipQuestions questions s).bind (readRecords records) := by
  subst hq ha
  rfl

/-- One question behind its name. -/
theorem skipQuestions_one {labels : List (List UInt8)}
    (hlabels : ∀ label ∈ labels, label ≠ [] ∧ label.length < 64) {f : List UInt8}
    (hf : f.length = 4) (s : List UInt8) :
    skipQuestions 1 (encodeName labels ++ (f ++ s)) = some s := by
  unfold skipQuestions
  rw [skipName_encodeName hlabels]
  dsimp only
  rw [if_neg (by rw [List.length_append]; omega), List.drop_left' hf]
  rfl

end Dns
