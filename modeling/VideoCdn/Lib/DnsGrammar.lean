import VideoCdn.Lib.DnsMessage

/-!
# The grammar of DNS messages

A reader for whole messages: what it returns is what the message says, and what is left behind it.

* `readName`, `readQuestion`, `readResource` — the parts; a name is its labels, and the offset at
  which it goes on if it ends with a pointer.
* `Message`, `readMessage` — the header fields and the four sections.
* `readName_encodeName` — **round trip** of names, and `encodeName_injective` from it.
* `readQuestion_encodeName`, `readResource_encodeName` — a question and a record behind such a name.
-/

set_option autoImplicit false

namespace Dns

structure Name where
  labels : List (List UInt8)
  pointer : Option Nat
  deriving DecidableEq, Repr

/-- A name of fewer labels than the first argument. -/
def readLabels : Nat → List UInt8 → Option (Name × List UInt8)
  | 0, _ => none
  | _ + 1, [] => none
  | fuel + 1, c :: s =>
    if c = 0 then some (⟨[], none⟩, s)
    else if c < 64 then
      if s.length < c.toNat then none
      else (readLabels fuel (s.drop c.toNat)).map fun r =>
        (⟨s.take c.toNat :: r.1.labels, r.1.pointer⟩, r.2)
    else if 192 ≤ c then
      match s with
      | [] => none
      | d :: s => some (⟨[], some (be16 (c - 192) d)⟩, s)
    else none

def readName (s : List UInt8) : Option (Name × List UInt8) := readLabels s.length s

structure Question where
  name : Name
  type : Nat
  qclass : Nat
  deriving DecidableEq, Repr

def readQuestion (s : List UInt8) : Option (Question × List UInt8) :=
  match readName s with
  | some (name, t₁ :: t₀ :: c₁ :: c₀ :: s) => some (⟨name, be16 t₁ t₀, be16 c₁ c₀⟩, s)
  | _ => none

structure Resource where
  name : Name
  type : Nat
  rclass : Nat
  ttl : Nat
  rdata : List UInt8
  deriving DecidableEq, Repr

def readResource (s : List UInt8) : Option (Resource × List UInt8) :=
  match readName s with
  | some (name, t₁ :: t₀ :: c₁ :: c₀ :: l₃ :: l₂ :: l₁ :: l₀ :: n₁ :: n₀ :: s) =>
    if s.length < be16 n₁ n₀ then none
    else some (⟨name, be16 t₁ t₀, be16 c₁ c₀, 65536 * be16 l₃ l₂ + be16 l₁ l₀,
      s.take (be16 n₁ n₀)⟩, s.drop (be16 n₁ n₀))
  | _ => none

def readMany {α : Type} (read : List UInt8 → Option (α × List UInt8)) :
    Nat → List UInt8 → Option (List α × List UInt8)
  | 0, s => some ([], s)
  | n + 1, s => (read s).bind fun r => (readMany read n r.2).map fun rs => (r.1 :: rs.1, rs.2)

structure Message where
  id : Nat
  flags : Nat
  questions : List Question
  answers : List Resource
  authorities : List Resource
  additionals : List Resource
  deriving DecidableEq, Repr

/-- A message, and what is left behind it. -/
def readMessage : List UInt8 → Option (Message × List UInt8)
  | i₁ :: i₀ :: f₁ :: f₀ :: q₁ :: q₀ :: a₁ :: a₀ :: n₁ :: n₀ :: r₁ :: r₀ :: s =>
    (readMany readQuestion (be16 q₁ q₀) s).bind fun questions =>
      (readMany readResource (be16 a₁ a₀) questions.2).bind fun answers =>
        (readMany readResource (be16 n₁ n₀) answers.2).bind fun authorities =>
          (readMany readResource (be16 r₁ r₀) authorities.2).map fun additionals =>
            (⟨be16 i₁ i₀, be16 f₁ f₀, questions.1, answers.1, authorities.1, additionals.1⟩,
              additionals.2)
  | _ => none

/-- The first bit of the flags. -/
def Message.qr (m : Message) : Bool := 32768 ≤ m.flags

def Message.rcode (m : Message) : Nat := m.flags % 16

/-- The ID in the first two bytes. -/
def messageId : List UInt8 → Option Nat
  | i₁ :: i₀ :: _ => some (be16 i₁ i₀)
  | _ => none

/-- The question behind the header. -/
def firstQuestion (message : List UInt8) : Option Question :=
  (readQuestion (message.drop 12)).map Prod.fst

/-! ## Names -/

/-- Labels that a name can have. -/
def ValidLabels (labels : List (List UInt8)) : Prop :=
  ∀ label ∈ labels, label ≠ [] ∧ label.length < 64

theorem length_lt_encodeName (labels : List (List UInt8)) :
    labels.length < (encodeName labels).length := by
  induction labels with
  | nil => simp [encodeName]
  | cons label labels ih =>
    simp only [encodeName, List.length_cons, List.cons_append, List.length_append]
    omega

/-- A length byte is followed by its label and the rest of the name. -/
theorem readLabels_label (fuel : Nat) {c : UInt8} (hzero : c ≠ 0) (hsmall : c < 64)
    {label : List UInt8} (hlen : c.toNat = label.length) (s : List UInt8) :
    readLabels (fuel + 1) (c :: (label ++ s)) =
      (readLabels fuel s).map fun r => (⟨label :: r.1.labels, r.1.pointer⟩, r.2) := by
  rw [readLabels.eq_def]
  dsimp only
  rw [if_neg hzero, if_pos hsmall, hlen, if_neg (by simp), List.drop_left, List.take_left]

theorem readLabels_encodeName {labels : List (List UInt8)} (hlabels : ValidLabels labels) {fuel : Nat}
    (hfuel : labels.length < fuel) (s : List UInt8) :
    readLabels fuel (encodeName labels ++ s) = some (⟨labels, none⟩, s) := by
  induction labels generalizing fuel with
  | nil =>
    obtain ⟨fuel, rfl⟩ : ∃ n, fuel = n + 1 := ⟨fuel - 1, by simp at hfuel; omega⟩
    simp [encodeName, readLabels]
  | cons label labels ih =>
    obtain ⟨fuel, rfl⟩ : ∃ n, fuel = n + 1 := ⟨fuel - 1, by simp at hfuel; omega⟩
    obtain ⟨hne, hlt⟩ := hlabels label List.mem_cons_self
    obtain ⟨hval, hzero, hsmall⟩ := length_byte (List.length_pos_iff.mpr hne) hlt
    have hrest := ih (fun l hl => hlabels l (List.mem_cons_of_mem _ hl))
      (Nat.lt_of_succ_lt_succ hfuel)
    rw [encodeName, List.cons_append, List.cons_append, List.append_assoc,
      readLabels_label fuel hzero hsmall hval, hrest]
    rfl

/-- **A name reads back as its labels**, whatever follows it. -/
theorem readName_encodeName {labels : List (List UInt8)} (hlabels : ValidLabels labels)
    (s : List UInt8) : readName (encodeName labels ++ s) = some (⟨labels, none⟩, s) := by
  have := length_lt_encodeName labels
  exact readLabels_encodeName hlabels (by rw [List.length_append]; omega) s

/-- Names with other labels have other encodings, also in front of other bytes. -/
theorem encodeName_injective {labels labels' : List (List UInt8)} (h : ValidLabels labels)
    (h' : ValidLabels labels') {s s' : List UInt8}
    (heq : encodeName labels ++ s = encodeName labels' ++ s') : labels = labels' := by
  have hread := readName_encodeName h s
  rw [heq, readName_encodeName h' s'] at hread
  simp only [Option.some.injEq, Prod.mk.injEq, Name.mk.injEq, and_true] at hread
  exact hread.1.symm

/-! ## Questions and records -/

theorem readQuestion_encodeName {labels : List (List UInt8)} (hlabels : ValidLabels labels)
    (t₁ t₀ c₁ c₀ : UInt8) (s : List UInt8) :
    readQuestion (encodeName labels ++ t₁ :: t₀ :: c₁ :: c₀ :: s) =
      some (⟨⟨labels, none⟩, be16 t₁ t₀, be16 c₁ c₀⟩, s) := by
  rw [readQuestion, readName_encodeName hlabels]

/-- Fewer than four bytes behind the name are no question. -/
theorem readQuestion_short {labels : List (List UInt8)} (hlabels : ValidLabels labels)
    {s : List UInt8} (hs : s.length < 4) : readQuestion (encodeName labels ++ s) = none := by
  rw [readQuestion, readName_encodeName hlabels]
  match s, hs with
  | [], _ => rfl
  | [_], _ => rfl
  | [_, _], _ => rfl
  | [_, _, _], _ => rfl

theorem readResource_encodeName {labels : List (List UInt8)} (hlabels : ValidLabels labels)
    (t₁ t₀ c₁ c₀ l₃ l₂ l₁ l₀ n₁ n₀ : UInt8) {rdata : List UInt8}
    (hlen : be16 n₁ n₀ = rdata.length) (s : List UInt8) :
    readResource (encodeName labels ++
        t₁ :: t₀ :: c₁ :: c₀ :: l₃ :: l₂ :: l₁ :: l₀ :: n₁ :: n₀ :: (rdata ++ s)) =
      some (⟨⟨labels, none⟩, be16 t₁ t₀, be16 c₁ c₀, 65536 * be16 l₃ l₂ + be16 l₁ l₀, rdata⟩,
        s) := by
  rw [readResource, readName_encodeName hlabels]
  dsimp only
  rw [hlen, if_neg (by simp), List.take_left, List.drop_left]

end Dns
