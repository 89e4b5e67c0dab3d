import VideoCdn.HostName
import VideoCdn.Lib.DnsGrammar

/-!
# Host names on the wire (`transfer_dns_name` of `src/mydns.c`)

The last label has no dot behind it: the loop writes it only if it is still open at index 15.

* `DnsName` — a host name of labels whose encoding fits in the array of `NAMESIZE` bytes.
* `transferLoop_name` — what the loop makes of the labels that are left.
* `WireEncoded`, `wireEncoded_iff` — the array holds the encoding exactly when it fills the array and
  the last label has more than one byte.
* `wireEncoded_lost` — a name of one letter is encoded as the empty name.
-/

set_option autoImplicit false

namespace VideoCdn

open CLib Dns

/-- A host name of non-empty labels with single dots between them. -/
structure DnsName where
  labels : List Bytes
  ne_nil : labels ≠ []
  label : ∀ label ∈ labels, label ≠ [] ∧ (46 : UInt8) ∉ label ∧ (0 : UInt8) ∉ label
  fits : (encodeName labels).length ≤ NAMESIZE

def dotted (labels : List Bytes) : Bytes := [46].intercalate labels

def DnsName.cstring (n : DnsName) : CString :=
  ⟨dotted n.labels, notMem_intercalate (by decide) fun label hl => (n.label label hl).2.2⟩

/-- The array holds the encoding, and zeros behind it. -/
def padded (labels : List Bytes) : Bytes :=
  encodeName labels ++ List.replicate (NAMESIZE - (encodeName labels).length) 0

def WireEncoded (n : DnsName) : Prop := transferDnsName n.cstring = .ok (padded n.labels)

/-- The encoding fills the array, and the last label has more than one byte. -/
structure DnsName.FillsArray (n : DnsName) : Prop where
  fills : (encodeName n.labels).length = NAMESIZE
  long : 2 ≤ (n.labels.getLast n.ne_nil).length

theorem length_dotted {labels : List Bytes} (hne : labels ≠ []) :
    (encodeName labels).length = (dotted labels).length + 2 := by
  induction labels with
  | nil => exact absurd rfl hne
  | cons label labels ih =>
    cases labels with
    | nil => simp [encodeName, dotted]
    | cons next labels =>
      have := ih (by simp)
      unfold dotted at this ⊢
      rw [List.intercalate_cons_cons, encodeName]
      simp only [List.cons_append, List.length_cons, List.length_append, List.length_nil]
      omega

/-! ## The last label -/

/-- A last label that is still short at index 15 is lost: a zero stands where its length should. -/
theorem lost_ne_padded {E w : Bytes} (hw : w ≠ []) (hlt : w.length < 256)
    (hE : E.length + w.length + 2 ≤ NAMESIZE) :
    E ++ List.replicate (NAMESIZE - E.length) 0 ≠
      E ++ encodeName [w] ++ List.replicate (NAMESIZE - (E ++ encodeName [w]).length) 0 := by
  intro heq
  have hpos : 0 < w.length := List.length_pos_iff.mpr hw
  rw [List.append_assoc, List.append_cancel_left_eq] at heq
  have hhead := congrArg List.head? heq
  rw [List.head?_replicate, if_neg (by omega), encodeName, List.cons_append, List.cons_append,
    List.head?_cons, Option.some.injEq] at hhead
  exact absurd (ofNat_inj_of_lt (m := 0) (by decide) hlt hhead) (by omega)

/-- A last label of one byte at index 15 is lost as well: it is not open yet. -/
theorem transferLoop_oneByte {s E : Bytes} {x : UInt8} (hx : x ≠ 46) :
    transferLoop s [x] 15 (.atLabel E) = .ok { NameCursor.atLabel E with sublen := 1 } := by
  have hclosed : ¬ (15 = 15 ∧ 0 < (NameCursor.atLabel E).sublen) := fun h => Nat.lt_irrefl 0 h.2
  rw [transferLoop, flushAt15, if_neg hclosed, ok_bind, flushAtDot, if_neg hx, ok_bind]
  rfl

/-- A last label that reaches index 15 with more than one byte is written. -/
theorem transferLoop_written {s E w : Bytes} (hdot : (46 : UInt8) ∉ w) (hlong : 2 ≤ w.length)
    (hlen : E.length + w.length = 16) (hd : s.drop E.length = w) :
    ∃ c, transferLoop s w E.length (.atLabel E) = .ok c ∧ c.buffer = E ++ encodeName [w] := by
  obtain ⟨v, x, rfl⟩ : ∃ v x, w = v ++ [x] :=
    ⟨w.dropLast, w.getLast (List.ne_nil_of_length_pos (by omega)),
      (List.dropLast_append_getLast _).symm⟩
  simp only [List.mem_append, List.mem_singleton, not_or] at hdot
  simp only [List.length_append, List.length_singleton] at hlong hlen
  have hx : ¬ x = 46 := fun h => hdot.2 h.symm
  have hloop := transferLoop_flush (r := []) hdot.1 (by omega) (by omega) hd
  rw [flushAtDot, if_neg hx, ok_bind] at hloop
  refine ⟨_, hloop, ?_⟩
  simp [encodeName]

/-- **The last label** is written iff it reaches index 15 with more than one byte. -/
theorem transferLoop_lastLabel {s E w : Bytes} (hw : w ≠ []) (hdot : (46 : UInt8) ∉ w)
    (hfits : E.length + w.length + 2 ≤ NAMESIZE) (hd : s.drop E.length = w) :
    ∃ c, transferLoop s w E.length (.atLabel E) = .ok c ∧
      (c.buffer = E ++ encodeName [w] ++ List.replicate (NAMESIZE - (E ++ encodeName [w]).length) 0 ↔
        E.length + w.length + 2 = NAMESIZE ∧ 2 ≤ w.length) := by
  have hNAME : NAMESIZE = 18 := rfl
  have hlost := lost_ne_padded (E := E) hw (by omega) hfits
  by_cases hshort : E.length + w.length ≤ 15
  · refine ⟨_, transferLoop_last hdot hshort, iff_of_false hlost ?_⟩
    omega
  · by_cases hlong : 2 ≤ w.length
    · obtain ⟨c, hrun, hbuffer⟩ := transferLoop_written hdot hlong (by omega) hd
      refine ⟨c, hrun, iff_of_true ?_ ⟨by omega, hlong⟩⟩
      have hfull : NAMESIZE - (E ++ encodeName [w]).length = 0 := by
        simp only [encodeName, List.length_append, List.length_cons, List.length_nil,
          List.cons_append]
        omega
      rw [hbuffer, hfull, List.replicate_zero, List.append_nil]
    · have hpos : 0 < w.length := List.length_pos_iff.mpr hw
      obtain ⟨x, rfl⟩ := List.length_eq_one_iff.mp (by omega : w.length = 1)
      have hE : E.length = 15 := by simp at hshort hfits; omega
      have hx : x ≠ 46 := by simpa [eq_comm] using hdot
      refine ⟨{ NameCursor.atLabel E with sublen := 1 }, ?_,
        iff_of_false hlost (fun h => hlong h.2)⟩
      rw [hE]
      exact transferLoop_oneByte hx

/-! ## All labels -/

/-- **The labels that are left**: those with a dot behind them are written, and then the last. -/
theorem transferLoop_name {s E : Bytes} {labels : List Bytes} (hne : labels ≠ [])
    (hlabels : ∀ label ∈ labels, label ≠ [] ∧ (46 : UInt8) ∉ label)
    (hfits : E.length + (dotted labels).length + 2 ≤ NAMESIZE)
    (hd : s.drop E.length = dotted labels) :
    ∃ c, transferLoop s (dotted labels) E.length (.atLabel E) = .ok c ∧
      (c.buffer = E ++ encodeName labels ++
          List.replicate (NAMESIZE - (E ++ encodeName labels).length) 0 ↔
        E.length + (dotted labels).length + 2 = NAMESIZE ∧ 2 ≤ (labels.getLast hne).length) := by
  induction labels generalizing E with
  | nil => exact absurd rfl hne
  | cons w labels ih =>
    obtain ⟨hw, hdot⟩ := hlabels w List.mem_cons_self
    cases labels with
    | nil =>
      simp only [dotted, List.intercalate_singleton] at hfits hd ⊢
      exact transferLoop_lastLabel hw hdot hfits hd
    | cons next labels =>
      have hsplit : dotted (w :: next :: labels) = w ++ 46 :: dotted (next :: labels) := by
        simp [dotted]
      have hnext : 0 < (dotted (next :: labels)).length := by
        have hne' := (hlabels next (by simp)).1
        have hlen := length_dotted (List.cons_ne_nil next labels)
        have hpos := List.length_pos_iff.mpr hne'
        have hrest := length_lt_encodeName labels
        simp only [encodeName, List.cons_append, List.length_cons, List.length_append] at hlen
        omega
      rw [hsplit] at hfits hd ⊢
      simp only [List.length_append, List.length_cons] at hfits
      have hlen : E.length + w.length ≤ 14 := by unfold NAMESIZE at hfits; omega
      -- one label on, its encoding is as long as the label and its dot
      have hE : (E ++ UInt8.ofNat w.length :: w).length = E.length + w.length + 1 := by simp; omega
      have hd' : s.drop (E ++ UInt8.ofNat w.length :: w).length = dotted (next :: labels) := by
        have := congrArg (List.drop (w.length + 1)) hd
        rw [List.drop_drop] at this
        rw [hE, Nat.add_assoc, this]
        simp
      have ih := ih (by simp) (fun l hl => hlabels l (List.mem_cons_of_mem _ hl))
        (E := E ++ UInt8.ofNat w.length :: w) (by rw [hE]; omega) hd'
      rw [transferLoop_label hdot hlen hd, ← hE]
      simp only [encodeName, List.append_assoc, List.cons_append, List.length_append,
        List.length_cons, List.getLast_cons_cons] at ih ⊢
      obtain ⟨c, hrun, hiff⟩ := ih
      refine ⟨c, hrun, hiff.trans ?_⟩
      omega

/-- The whole name, from an empty array. -/
theorem encoded_iff (n : DnsName) : WireEncoded n ↔ n.FillsArray := by
  have hlen := length_dotted n.ne_nil
  have hfits := n.fits
  obtain ⟨c, hrun, hiff⟩ := transferLoop_name (s := dotted n.labels) (E := []) n.ne_nil
    (fun l hl => ⟨(n.label l hl).1, (n.label l hl).2.1⟩) (by simp; omega) rfl
  have hname : transferDnsName n.cstring = .ok c.buffer := by
    unfold transferDnsName DnsName.cstring
    dsimp only
    rw [show (⟨List.replicate NAMESIZE 0, 0, 0, 0⟩ : NameCursor) = .atLabel [] from rfl]
    rw [List.length_nil] at hrun
    rw [hrun]
    rfl
  simp only [List.nil_append, List.length_nil, Nat.zero_add] at hiff
  unfold WireEncoded padded
  rw [hname, Except.ok.injEq, hiff]
  constructor
  · rintro ⟨hfill, hlong⟩
    exact ⟨by omega, hlong⟩
  · rintro ⟨hfill, hlong⟩
    exact ⟨by omega, hlong⟩

theorem DnsName.validLabels (n : DnsName) : ValidLabels n.labels := by
  intro label hl
  refine ⟨(n.label label hl).1, ?_⟩
  have hle : label.length ≤ (encodeName n.labels).length := by
    obtain ⟨front, back, hsplit⟩ := List.append_of_mem hl
    rw [hsplit]
    clear hsplit
    induction front with
    | nil =>
      simp only [List.nil_append, encodeName, List.cons_append, List.length_cons, List.length_append]
      omega
    | cons l front ih =>
      simp only [List.cons_append, encodeName, List.length_cons, List.length_append]
      omega
  have := n.fits
  unfold NAMESIZE at this
  omega

/-- **The encoding** is right exactly for the names that fill the array with a long last label; among
those, the array tells the names apart. -/
theorem wireEncoded_iff (n m : DnsName) : (WireEncoded n ↔ n.FillsArray) ∧
    (n.FillsArray → m.FillsArray → transferDnsName n.cstring = transferDnsName m.cstring →
      n.labels = m.labels) := by
  refine ⟨encoded_iff n, fun hn hm heq => ?_⟩
  have hn : WireEncoded n := (encoded_iff n).mpr hn
  have hm : WireEncoded m := (encoded_iff m).mpr hm
  unfold WireEncoded at hn hm
  rw [hn, hm, Except.ok.injEq] at heq
  exact encodeName_injective n.validLabels m.validLabels heq

/-! ## A name of one letter -/

def oneLetter (c : UInt8) (h : c ≠ 46 ∧ c ≠ 0) : DnsName where
  labels := [[c]]
  ne_nil := by simp
  label := by simpa [eq_comm] using h
  fits := by simp [encodeName, NAMESIZE]

/-- **A lost label**: the names `a` and `b` are both encoded as the empty name. -/
theorem wireEncoded_lost : ¬ ((∀ n, WireEncoded n) ∧ ∀ n m : DnsName,
    transferDnsName n.cstring = transferDnsName m.cstring → n.labels = m.labels) := by
  rintro ⟨-, hdistinct⟩
  have := hdistinct (oneLetter 97 (by decide)) (oneLetter 98 (by decide)) (by decide)
  exact absurd this (by decide)

end VideoCdn
