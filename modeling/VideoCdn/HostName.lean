import VideoCdn.Mydns

/-!
# The name check against the name encoder

`transfer_dns_name` writes a label when it meets the dot after it, and once more at index 15.  This
module determines, for every host name, whether the encoder stays inside its 18-byte array and
whether the encoding is the one name the nameserver accepts.

* `acceptsName` — the test that `handle_dns_request` makes on a datagram.
* `transferLoop_ok_iff` — the encoder stays inside its array iff no dot comes too late.
* `transferLoop_label` — what the loop does with a label that starts before index 15.
* `transferDnsName_eq_validDns_iff` — the names encoded as `validDns` are `video.cs.cmu.edu`
  followed by any text without a dot.
-/

set_option autoImplicit false

namespace VideoCdn

open CLib

/-- The length and name test of `handle_dns_request`. -/
def acceptsName (buffer : Bytes) : Bool :=
  decide (headerSize + NAMESIZE ≤ buffer.length) &&
    (buffer.drop headerSize).take NAMESIZE == validDns

/-- The host name the proxy resolves. -/
def videoHost : Bytes := ascii "video.cs.cmu.edu"

/-- How far the flush at index 15 shifts the output cursor of what follows. -/
def skew (dns : Bytes) : Nat := if dns[14]? = some 46 then 0 else 1

/-- Every dot comes early enough for the label in front of it to fit. -/
def DotsFit (dns : Bytes) : Prop := ∀ j, dns[j]? = some 46 → j + skew dns ≤ 17

/-! ## Staying inside the array -/

/-- The cursors in front of index `i`. -/
structure CursorAt (dns : Bytes) (i : Nat) (c : NameCursor) : Prop where
  size : c.buffer.length = NAMESIZE
  label : c.tmp1 + c.sublen = i
  early : i ≤ 15 → c.tmp2 = c.tmp1
  late : 15 < i → c.tmp2 = c.tmp1 + skew dns
  fresh : i = 15 → (c.sublen = 0 ↔ dns[14]? = some 46)

/-- The state in which the loop starts. -/
def NameCursor.init : NameCursor := ⟨List.replicate NAMESIZE 0, 0, 0, 0⟩

theorem CursorAt.init (dns : Bytes) : CursorAt dns 0 NameCursor.init :=
  ⟨by simp [NameCursor.init], rfl, fun _ => rfl, fun h => by omega, fun h => by omega⟩

/-- The flush at index 15 always fits, and leaves the cursors of the rest of the loop. -/
theorem flushAt15_ok {dns : Bytes} {i : Nat} {c : NameCursor} (hc : CursorAt dns i c)
    (hi : i < dns.length) : ∃ c', flushAt15 dns i c = .ok c' ∧ c'.buffer.length = NAMESIZE ∧
      c'.tmp1 = c.tmp1 ∧ c'.sublen = c.sublen ∧
      c'.tmp2 = c.tmp1 + (if i < 15 then 0 else skew dns) := by
  obtain ⟨hsize, hlab, hearly, hlate, hfresh⟩ := hc
  by_cases hflush : i = 15 ∧ 0 < c.sublen
  · obtain ⟨rfl, hpos⟩ := hflush
    have hearly := hearly (Nat.le_refl _)
    have hskew : skew dns = 1 := if_neg (fun h => by have := (hfresh rfl).mpr h; omega)
    have hNAME : NAMESIZE = 18 := rfl
    obtain ⟨b, hb⟩ := (exists_store_eq_ok (a := c.buffer) (i := c.tmp2)
      (s := [UInt8.ofNat (c.sublen + 1)])).mpr (by rw [List.length_singleton]; omega)
    have hbl := store_length hb
    obtain ⟨b', hb'⟩ := (exists_store_eq_ok (a := b) (i := c.tmp2 + 1)
      (s := (dns.drop c.tmp1).take (c.sublen + 1))).mpr (by rw [List.length_take]; omega)
    refine ⟨⟨b', c.tmp1, c.tmp2 + 1, c.sublen⟩, ?_, ?_, rfl, rfl, ?_⟩
    · unfold flushAt15
      rw [if_pos ⟨rfl, hpos⟩, hb, ok_bind, hb', ok_bind, pure_eq_ok]
    · rw [store_length hb', hbl, hsize]
    · rw [if_neg (Nat.lt_irrefl _), hskew, hearly]
  · refine ⟨c, if_neg hflush, hsize, rfl, rfl, ?_⟩
    rcases Nat.lt_trichotomy i 15 with hlt | rfl | hgt
    · rw [if_pos hlt, hearly (by omega), Nat.add_zero]
    · have hz : c.sublen = 0 := by omega
      rw [if_neg (Nat.lt_irrefl _), hearly (Nat.le_refl _), skew, if_pos ((hfresh rfl).mp hz)]
      rfl
    · rw [if_neg (by omega), hlate hgt]

/-- The flush at a dot fits if the label and its length byte do. -/
theorem flushAtDot_ok_iff {dns : Bytes} {ch : UInt8} {c : NameCursor}
    (hsize : c.buffer.length = NAMESIZE) (hlen : c.tmp1 + c.sublen ≤ dns.length) :
    (∃ c', flushAtDot dns ch c = .ok c') ↔ (ch = 46 → c.tmp2 + 1 + c.sublen ≤ NAMESIZE) := by
  have htake : ((dns.drop c.tmp1).take c.sublen).length = c.sublen := by
    simp only [List.length_take, List.length_drop]; omega
  unfold flushAtDot
  by_cases hdot : ch = 46
  · rw [if_pos hdot]
    simp only [hdot, true_imp_iff, bind_eq_ok, pure_eq_ok]
    constructor
    · rintro ⟨_, b, hb, b', hb', -⟩
      have := (store_eq_ok.mp hb').1
      rw [htake, store_length hb] at this
      omega
    · intro hfit
      obtain ⟨b, hb⟩ := (exists_store_eq_ok (a := c.buffer) (i := c.tmp2)
        (s := [UInt8.ofNat c.sublen])).mpr (by rw [List.length_singleton]; omega)
      obtain ⟨b', hb'⟩ := (exists_store_eq_ok (a := b) (i := c.tmp2 + 1)
        (s := (dns.drop c.tmp1).take c.sublen)).mpr (by rw [htake, store_length hb]; omega)
      exact ⟨_, b, hb, b', hb', rfl⟩
  · rw [if_neg hdot]
    exact ⟨fun _ h => absurd h hdot, fun _ => ⟨_, rfl⟩⟩

/-- The cursors behind a dot, or behind one more byte of the label. -/
theorem flushAtDot_cursors {dns : Bytes} {ch : UInt8} {c c' : NameCursor}
    (h : flushAtDot dns ch c = .ok c') : c'.buffer.length = c.buffer.length ∧
      c'.tmp1 + c'.sublen = c.tmp1 + c.sublen + 1 ∧ c'.tmp2 + c.tmp1 = c'.tmp1 + c.tmp2 ∧
      (c'.sublen = 0 ↔ ch = 46) := by
  unfold flushAtDot at h
  split at h
  · rename_i hdot
    simp only [bind_eq_ok, pure_eq_ok, Except.ok.injEq] at h
    obtain ⟨b, hb, b', hb', rfl⟩ := h
    refine ⟨by rw [store_length hb', store_length hb], ?_, ?_, fun _ => hdot, fun _ => rfl⟩
    · show c.tmp1 + c.sublen + 1 + 0 = _
      omega
    · show c.tmp2 + 1 + c.sublen + c.tmp1 = c.tmp1 + c.sublen + 1 + c.tmp2
      omega
  · rename_i hdot
    cases h
    refine ⟨rfl, ?_, ?_, fun h => ?_, fun h => absurd h hdot⟩
    · show c.tmp1 + (c.sublen + 1) = _
      omega
    · show c.tmp2 + c.tmp1 = c.tmp1 + c.tmp2
      omega
    · exact absurd h (Nat.succ_ne_zero _)

/-- One index of the loop keeps the cursors. -/
theorem CursorAt.step {dns : Bytes} {ch : UInt8} {i : Nat} {c c₁ c₂ : NameCursor}
    (hc : CursorAt dns i c) (hget : dns[i]? = some ch) (h₁ : flushAt15 dns i c = .ok c₁)
    (h₂ : flushAtDot dns ch c₁ = .ok c₂) : CursorAt dns (i + 1) c₂ := by
  obtain ⟨hi, -⟩ := List.getElem?_eq_some_iff.mp hget
  obtain ⟨c₁', h₁', hsize, htmp1, hsub, htmp2⟩ := flushAt15_ok hc hi
  rw [h₁] at h₁'
  cases h₁'
  obtain ⟨hsize₂, hlab₂, hdiff, hzero⟩ := flushAtDot_cursors h₂
  have hlab := hc.label
  refine ⟨by rw [hsize₂, hsize], by omega, fun h => ?_, fun h => ?_, fun h => ?_⟩
  · rw [if_pos (by omega)] at htmp2; omega
  · rw [if_neg (by omega)] at htmp2; omega
  · have h14 : i = 14 := by omega
    rw [hzero, ← h14, hget]
    simp

/-- **The encoder stays inside its array iff no dot comes too late.** -/
theorem transferLoop_ok_iff {dns : Bytes} : ∀ {rest : Bytes} {i : Nat} {c : NameCursor},
    CursorAt dns i c → dns.drop i = rest →
      ((∃ c', transferLoop dns rest i c = .ok c') ↔
        ∀ j, i ≤ j → dns[j]? = some 46 → j + skew dns ≤ 17)
  | [], i, c, _, hd => by
    have hlen : dns.length ≤ i := by simpa using hd
    refine ⟨fun _ j hj hget => ?_, fun _ => ⟨c, rfl⟩⟩
    obtain ⟨hlt, -⟩ := List.getElem?_eq_some_iff.mp hget
    omega
  | ch :: rest, i, c, hc, hd => by
    have hget : dns[i]? = some ch := by
      have := congrArg List.head? hd
      simpa [List.head?_drop] using this
    have hdrop : dns.drop (i + 1) = rest := by
      have := congrArg List.tail hd
      simpa [List.tail_drop] using this
    obtain ⟨hi, -⟩ := List.getElem?_eq_some_iff.mp hget
    obtain ⟨c₁, h₁, hsize, htmp1, hsub, htmp2⟩ := flushAt15_ok hc hi
    have hlab := hc.label
    have hsk : skew dns ≤ 1 := by unfold skew; split <;> omega
    have hNAME : NAMESIZE = 18 := rfl
    have hdotfit : (∃ c₂, flushAtDot dns ch c₁ = .ok c₂) ↔ (ch = 46 → i + skew dns ≤ 17) := by
      rw [flushAtDot_ok_iff hsize (by omega), hNAME, htmp2]
      by_cases hlt : i < 15
      · rw [if_pos hlt]
        exact ⟨fun _ _ => by omega, fun _ _ => by omega⟩
      · rw [if_neg hlt]
        exact ⟨fun h hd => by have := h hd; omega, fun h hd => by have := h hd; omega⟩
    simp only [transferLoop, bind_eq_ok]
    constructor
    · rintro ⟨c', d₁, hd₁, c₂, h₂, hloop⟩ j hj hjget
      rw [h₁] at hd₁
      cases hd₁
      rcases Nat.eq_or_lt_of_le hj with rfl | hlt
      · rw [hget, Option.some.injEq] at hjget
        exact hdotfit.mp ⟨c₂, h₂⟩ hjget
      · exact (transferLoop_ok_iff (hc.step hget h₁ h₂) hdrop).mp ⟨c', hloop⟩ j hlt hjget
    · intro hall
      obtain ⟨c₂, h₂⟩ := hdotfit.mpr (fun h => hall i (Nat.le_refl _) (by rw [hget, h]))
      obtain ⟨c', hloop⟩ := (transferLoop_ok_iff (hc.step hget h₁ h₂) hdrop).mpr
        (fun j hj => hall j (by omega))
      exact ⟨c', c₁, h₁, c₂, h₂, hloop⟩

theorem transferDnsName_ok_iff (name : CString) :
    (∃ b, transferDnsName name = .ok b) ↔ DotsFit name.bytes := by
  have key := transferLoop_ok_iff (CursorAt.init name.bytes) (List.drop_zero (l := name.bytes))
  simp only [Nat.zero_le, true_imp_iff] at key
  rw [DotsFit, ← key]
  simp only [transferDnsName, bind_eq_ok, pure_eq_ok, Except.ok.injEq]
  exact ⟨fun ⟨_, c, hc, _⟩ => ⟨c, hc⟩, fun ⟨c, hc⟩ => ⟨_, c, hc, rfl⟩⟩

/-! ## The bytes written -/

/-- The loop only moves its output cursor on and never writes in front of it. -/
structure KeepsPrefix (c c' : NameCursor) : Prop where
  size : c'.buffer.length = c.buffer.length
  le : c.tmp2 ≤ c'.tmp2
  take : c'.buffer.take c.tmp2 = c.buffer.take c.tmp2

theorem KeepsPrefix.trans {c c' c'' : NameCursor} (h : KeepsPrefix c c') (h' : KeepsPrefix c' c'') :
    KeepsPrefix c c'' := by
  refine ⟨h'.size.trans h.size, Nat.le_trans h.le h'.le, ?_⟩
  have := congrArg (List.take c.tmp2) h'.take
  rw [List.take_take, List.take_take, Nat.min_eq_left h.le] at this
  rw [this, h.take]

theorem flushAt15_keepsPrefix {dns : Bytes} {i : Nat} {c c' : NameCursor}
    (h : flushAt15 dns i c = .ok c') : KeepsPrefix c c' := by
  unfold flushAt15 at h
  split at h
  · simp only [bind_eq_ok, pure_eq_ok, Except.ok.injEq] at h
    obtain ⟨b, hb, b', hb', rfl⟩ := h
    refine ⟨(store_length hb').trans (store_length hb), Nat.le_succ _, ?_⟩
    show b'.take c.tmp2 = _
    rw [store_take hb' (Nat.le_succ _), store_take hb (Nat.le_refl _)]
  · cases h
    exact ⟨rfl, Nat.le_refl _, rfl⟩

theorem flushAtDot_keepsPrefix {dns : Bytes} {ch : UInt8} {c c' : NameCursor}
    (h : flushAtDot dns ch c = .ok c') : KeepsPrefix c c' := by
  unfold flushAtDot at h
  split at h
  · simp only [bind_eq_ok, pure_eq_ok, Except.ok.injEq] at h
    obtain ⟨b, hb, b', hb', rfl⟩ := h
    refine ⟨(store_length hb').trans (store_length hb), by dsimp only; omega, ?_⟩
    show b'.take c.tmp2 = _
    rw [store_take hb' (Nat.le_succ _), store_take hb (Nat.le_refl _)]
  · cases h
    exact ⟨rfl, Nat.le_refl _, rfl⟩

theorem transferLoop_keepsPrefix {dns : Bytes} : ∀ {rest : Bytes} {i : Nat} {c c' : NameCursor},
    transferLoop dns rest i c = .ok c' → KeepsPrefix c c'
  | [], _, c, c', h => by
    cases h
    exact ⟨rfl, Nat.le_refl _, rfl⟩
  | ch :: rest, i, c, c', h => by
    simp only [transferLoop, bind_eq_ok] at h
    obtain ⟨c₁, h₁, c₂, h₂, h₃⟩ := h
    exact (flushAt15_keepsPrefix h₁).trans
      ((flushAtDot_keepsPrefix h₂).trans (transferLoop_keepsPrefix h₃))

/-- Bytes without a dot, away from index 15, are only counted. -/
theorem transferLoop_plain {s r : Bytes} : ∀ {w : Bytes} {i : Nat} {c : NameCursor},
    (46 : UInt8) ∉ w → i + w.length ≤ 15 ∨ 15 < i →
      transferLoop s (w ++ r) i c =
        transferLoop s r (i + w.length) { c with sublen := c.sublen + w.length }
  | [], i, c, _, _ => rfl
  | x :: w, i, c, hw, hi => by
    simp only [List.mem_cons, not_or, List.length_cons] at hw hi
    have hdot : ¬ x = 46 := fun h => hw.1 h.symm
    rw [List.cons_append, transferLoop, flushAt15, if_neg (by omega), ok_bind, flushAtDot,
      if_neg hdot, ok_bind, transferLoop_plain hw.2 (by omega)]
    simp only [List.length_cons]
    congr 1
    · omega
    · congr 1; omega

/-- The state in front of a label, `E` being the encoding of the labels before it. -/
def NameCursor.atLabel (E : Bytes) : NameCursor :=
  ⟨E ++ List.replicate (NAMESIZE - E.length) 0, E.length, E.length, 0⟩

/-- **A label that ends with a dot before index 15** is written with its length. -/
theorem transferLoop_label {s E w r : Bytes} (hw : (46 : UInt8) ∉ w)
    (hlen : E.length + w.length ≤ 14) (hd : s.drop E.length = w ++ 46 :: r) :
    transferLoop s (w ++ 46 :: r) E.length (.atLabel E) =
      transferLoop s r (E.length + w.length + 1) (.atLabel (E ++ UInt8.ofNat w.length :: w)) := by
  have hNAME : NAMESIZE = 18 := rfl
  rw [transferLoop_plain hw (by omega), transferLoop, flushAt15, if_neg (by omega), ok_bind,
    flushAtDot, if_pos rfl]
  have hstore := store_replicate E [UInt8.ofNat w.length] (n := NAMESIZE - E.length)
    (by rw [List.length_singleton]; omega)
  have hstore' := store_replicate (E ++ [UInt8.ofNat w.length]) w
    (n := NAMESIZE - E.length - 1) (by omega)
  simp only [NameCursor.atLabel, Nat.zero_add, hd, List.take_left, hstore, ok_bind,
    List.length_singleton]
  rw [List.length_append, List.length_singleton] at hstore'
  have hzero : NAMESIZE - E.length - 1 - w.length = NAMESIZE - (E.length + (w.length + 1)) := by
    omega
  rw [hstore', ok_bind, pure_eq_ok, ok_bind, hzero]
  simp only [List.append_assoc, List.nil_append, List.cons_append, List.length_append,
    List.length_cons, Nat.add_assoc, Nat.add_comm 1]

/-- A last label that ends before index 15 is not written. -/
theorem transferLoop_last {s E r : Bytes} (hw : (46 : UInt8) ∉ r)
    (hlen : E.length + r.length ≤ 15) :
    transferLoop s r E.length (.atLabel E) =
      .ok { NameCursor.atLabel E with sublen := r.length } := by
  have := transferLoop_plain (s := s) (r := []) (c := .atLabel E) hw (Or.inl hlen)
  rw [List.append_nil] at this
  rw [this, transferLoop]
  simp [NameCursor.atLabel]

/-- A label that reaches index 15 is written there with the length it has at that point. -/
theorem transferLoop_flush {s E w r : Bytes} {x : UInt8} (hw : (46 : UInt8) ∉ w)
    (hE : E.length ≤ 14) (hlen : E.length + w.length = 15)
    (hd : s.drop E.length = w ++ x :: r) :
    transferLoop s (w ++ x :: r) E.length (.atLabel E) = (do
      let c ← flushAtDot s x ⟨E ++ UInt8.ofNat (w.length + 1) :: (w ++ [x]) ++ [0],
        E.length, E.length + 1, w.length⟩
      transferLoop s r 16 c) := by
  have hNAME : NAMESIZE = 18 := rfl
  rw [transferLoop_plain hw (by omega), transferLoop, flushAt15,
    if_pos ⟨by omega, by simp only [NameCursor.atLabel]; omega⟩]
  have hstore := store_replicate E [UInt8.ofNat (w.length + 1)] (n := NAMESIZE - E.length)
    (by rw [List.length_singleton]; omega)
  have hstore' := store_replicate (E ++ [UInt8.ofNat (w.length + 1)]) (w ++ [x])
    (n := NAMESIZE - E.length - 1) (by rw [List.length_append, List.length_singleton]; omega)
  have htake : (w ++ x :: r).take (w.length + 1) = w ++ [x] := by
    rw [List.take_append, List.take_of_length_le (Nat.le_succ _), Nat.add_sub_cancel_left]
    rfl
  simp only [NameCursor.atLabel, Nat.zero_add, hd, htake, hstore, ok_bind, List.length_singleton]
  rw [List.length_append, List.length_singleton] at hstore'
  rw [hstore', ok_bind, pure_eq_ok, ok_bind, hlen]
  have hzero : NAMESIZE - E.length - 1 - (w ++ [x]).length = 1 := by
    rw [List.length_append, List.length_singleton]; omega
  rw [hzero]
  simp

/-- The three ways in which a label can end. -/
theorem label_cases (E rest : Bytes) (hE : E.length ≤ 14) :
    (∃ w r, rest = w ++ 46 :: r ∧ (46 : UInt8) ∉ w ∧ E.length + w.length ≤ 14) ∨
    ((46 : UInt8) ∉ rest ∧ E.length + rest.length ≤ 15) ∨
    ∃ w ch r, rest = w ++ ch :: r ∧ (46 : UInt8) ∉ w ∧ E.length + w.length = 15 := by
  have long : 15 - E.length < rest.length → (46 : UInt8) ∉ rest.take (15 - E.length) →
      ∃ w ch r, rest = w ++ ch :: r ∧ (46 : UInt8) ∉ w ∧ E.length + w.length = 15 := by
    intro hlt hno
    refine ⟨rest.take (15 - E.length), rest[15 - E.length], rest.drop (15 - E.length + 1), ?_, hno,
      by rw [List.length_take]; omega⟩
    rw [← List.drop_eq_getElem_cons hlt, List.take_append_drop]
  by_cases hdot : (46 : UInt8) ∈ rest
  · obtain ⟨w, r, rfl, hw⟩ := List.eq_append_cons_of_mem hdot
    by_cases hle : E.length + w.length ≤ 14
    · exact Or.inl ⟨w, r, rfl, hw, hle⟩
    · refine Or.inr (Or.inr (long (by rw [List.length_append, List.length_cons]; omega) ?_))
      rw [List.take_append_of_le_length (by omega)]
      exact fun h => hw (List.mem_of_mem_take h)
  · by_cases hle : E.length + rest.length ≤ 15
    · exact Or.inr (Or.inl ⟨hdot, hle⟩)
    · exact Or.inr (Or.inr (long (by omega) (fun h => hdot (List.mem_of_mem_take h))))

/-! ## The names with the accepted encoding -/

theorem eq_take_of_keepsPrefix {c c' : NameCursor} {E : Bytes} (h : KeepsPrefix c c')
    (hv : c'.buffer = validDns) (ht : c.tmp2 = E.length) (hb : E <+: c.buffer) :
    E = validDns.take E.length := by
  have := h.take
  rw [hv, ht] at this
  rw [this]
  exact List.prefix_iff_eq_take.mp hb

/-- How the label at offset `k` ends, if the encoding is accepted. -/
theorem label_of_accepted {dns : Bytes} {c' : NameCursor} {k : Nat} (hk : k ≤ 14)
    (hne : validDns[k]? ≠ some 0)
    (h : transferLoop dns (dns.drop k) k (.atLabel (validDns.take k)) = .ok c')
    (hv : c'.buffer = validDns) :
    (∃ w r, dns.drop k = w ++ 46 :: r ∧ k + w.length ≤ 14 ∧
      validDns.take k ++ UInt8.ofNat w.length :: w = validDns.take (k + w.length + 1) ∧
      transferLoop dns r (k + w.length + 1) (.atLabel (validDns.take (k + w.length + 1))) =
        .ok c') ∨
    ∃ w ch r c, dns.drop k = w ++ ch :: r ∧ k + w.length = 15 ∧
      validDns[k]? = some (UInt8.ofNat (w.length + 1)) ∧
      flushAtDot dns ch ⟨validDns.take k ++ UInt8.ofNat (w.length + 1) :: (w ++ [ch]) ++ [0],
        k, k + 1, w.length⟩ = .ok c ∧ transferLoop dns r 16 c = .ok c' := by
  have hval : validDns.length = 18 := rfl
  have hlenE : (validDns.take k).length = k := by rw [List.length_take]; omega
  rcases label_cases (validDns.take k) (dns.drop k) (by omega) with
    ⟨w, r, hwr, hw, hlen⟩ | ⟨hw, hlen⟩ | ⟨w, ch, r, hwr, hw, hlen⟩
  · rw [hlenE] at hlen
    have hloop := transferLoop_label hw (by rw [hlenE]; exact hlen) (by rw [hlenE]; exact hwr)
    rw [hlenE] at hloop
    rw [hwr, hloop] at h
    have htake := eq_take_of_keepsPrefix (transferLoop_keepsPrefix h) hv rfl
      (List.prefix_append _ _)
    have hlen' : (validDns.take k ++ UInt8.ofNat w.length :: w).length = k + w.length + 1 := by
      rw [List.length_append, hlenE, List.length_cons]; omega
    rw [hlen'] at htake
    exact Or.inl ⟨w, r, hwr, hlen, htake, by rw [← htake]; exact h⟩
  · have hloop := transferLoop_last (s := dns) hw hlen
    rw [hlenE] at hloop
    rw [hloop] at h
    cases h
    refine absurd ?_ hne
    rw [← hv]
    show (validDns.take k ++ List.replicate _ 0)[k]? = _
    rw [List.getElem?_append_right (by omega), hlenE, Nat.sub_self,
      List.getElem?_replicate_of_lt (by show 0 < 18 - k; omega)]
  · rw [hlenE] at hlen
    have hloop := transferLoop_flush (E := validDns.take k) hw (by omega)
      (by rw [hlenE]; exact hlen) (by rw [hlenE]; exact hwr)
    rw [hlenE] at hloop
    rw [hwr, hloop, bind_eq_ok] at h
    obtain ⟨c, hdot, hrest⟩ := h
    refine Or.inr ⟨w, ch, r, c, hwr, hlen, ?_, hdot, hrest⟩
    have hkeep := (flushAtDot_keepsPrefix hdot).trans (transferLoop_keepsPrefix hrest)
    have htake := eq_take_of_keepsPrefix (E := validDns.take k ++ [UInt8.ofNat (w.length + 1)])
      hkeep hv (by rw [List.length_append, hlenE, List.length_singleton])
      ⟨w ++ [ch] ++ [0], by simp⟩
    rw [List.length_append, hlenE, List.length_singleton] at htake
    rw [← List.getElem?_take_of_lt (Nat.lt_succ_self k), ← htake,
      List.getElem?_append_right (by omega), hlenE]
    simp

theorem ofNat_inj_of_lt {m n : Nat} (hm : m < 256) (hn : n < 256)
    (h : UInt8.ofNat m = UInt8.ofNat n) : m = n := by
  have := congrArg UInt8.toNat h
  rw [UInt8.toNat_ofNat', UInt8.toNat_ofNat'] at this
  omega

/-- A label of the accepted name that ends before index 15 has the length and the bytes that
`validDns` asks for. -/
theorem dotted_label_of_accepted {dns : Bytes} {c' : NameCursor} {k : Nat} (L : Nat)
    (hL : validDns[k]? = some (UInt8.ofNat L)) (hshort : k + L ≤ 14) (hpos : 0 < L)
    (h : transferLoop dns (dns.drop k) k (.atLabel (validDns.take k)) = .ok c')
    (hv : c'.buffer = validDns) :
    dns.drop k = (validDns.drop (k + 1)).take L ++ 46 :: dns.drop (k + L + 1) ∧
      transferLoop dns (dns.drop (k + L + 1)) (k + L + 1) (.atLabel (validDns.take (k + L + 1))) =
        .ok c' := by
  have hval : validDns.length = 18 := rfl
  have hlenE : (validDns.take k).length = k := by rw [List.length_take]; omega
  have hne : validDns[k]? ≠ some 0 := by
    rw [hL]
    intro h0
    have := ofNat_inj_of_lt (n := 0) (by omega) (by omega) (Option.some.inj h0)
    omega
  rcases label_of_accepted (by omega) hne h hv with
    ⟨w, r, hwr, hlen, htake, hloop⟩ | ⟨w, ch, r, c, -, hlen, hget, -, -⟩
  · have hbyte : w.length = L := by
      apply ofNat_inj_of_lt (by omega) (by omega)
      have hget : (validDns.take (k + w.length + 1))[k]? = some (UInt8.ofNat w.length) := by
        rw [← htake, List.getElem?_append_right (by omega), hlenE]
        simp
      rw [List.getElem?_take_of_lt (by omega), hL] at hget
      exact (Option.some.inj hget).symm
    subst hbyte
    have hr : r = dns.drop (k + w.length + 1) := by
      have := congrArg (List.drop (w.length + 1)) hwr
      rw [List.drop_drop, List.drop_append, List.drop_eq_nil_of_le (Nat.le_succ _),
        Nat.add_sub_cancel_left] at this
      simpa [Nat.add_assoc] using this.symm
    have hw : (validDns.drop (k + 1)).take w.length = w := by
      have := congrArg (List.drop (k + 1)) htake
      rw [List.drop_append, List.drop_eq_nil_of_le (by omega), hlenE, Nat.add_sub_cancel_left,
        List.drop_take, show k + w.length + 1 - (k + 1) = w.length by omega] at this
      simpa using this.symm
    rw [hw, ← hr]
    exact ⟨hwr, hloop⟩
  · rw [hL] at hget
    have := ofNat_inj_of_lt (by omega) (by omega) (Option.some.inj hget)
    omega

/-- A dot behind the flush at index 15 puts a small length where `validDns` has the letter `e`. -/
theorem no_dot_behind_flush {dns : Bytes} {c c₂ c' : NameCursor}
    (hsize : c.buffer.length = NAMESIZE) (htmp2 : c.tmp2 = 14)
    (hlen : c.tmp1 + c.sublen ≤ dns.length) (h : flushAtDot dns 46 c = .ok c₂)
    (hkeep : KeepsPrefix c₂ c') : c'.buffer ≠ validDns := by
  intro hv
  have hfit := (flushAtDot_ok_iff hsize hlen).mp ⟨c₂, h⟩ rfl
  have hNAME : NAMESIZE = 18 := rfl
  rw [flushAtDot, if_pos rfl, bind_eq_ok] at h
  obtain ⟨b, hb, h⟩ := h
  rw [bind_eq_ok] at h
  obtain ⟨b', hb', h⟩ := h
  cases h
  have hget := congrArg (fun a : Bytes => a[14]?) hkeep.take
  dsimp only at hget
  rw [hv, htmp2, List.getElem?_take_of_lt (by omega), List.getElem?_take_of_lt (by omega),
    ← List.getElem?_take_of_lt (l := b') (Nat.lt_succ_self 14), store_take hb' (by omega)] at hget
  obtain ⟨-, rfl⟩ := store_eq_ok.mp hb
  rw [List.getElem?_take_of_lt (by omega), htmp2, List.append_assoc,
    List.getElem?_append_right (by rw [List.length_take]; omega), List.length_take,
    Nat.min_eq_left (by omega)] at hget
  have : c.sublen = 101 := (ofNat_inj_of_lt (by omega) (by omega)
    (Option.some.inj (show some (UInt8.ofNat 101) = _ from hget))).symm
  omega

/-- The label at offset 13 is `edu`, written by the flush at index 15, and no dot follows. -/
theorem last_label_of_accepted {dns : Bytes} {c' : NameCursor}
    (h : transferLoop dns (dns.drop 13) 13 (.atLabel (validDns.take 13)) = .ok c')
    (hv : c'.buffer = validDns) :
    ∃ rest, (46 : UInt8) ∉ rest ∧ dns.drop 13 = ascii "edu" ++ rest := by
  rcases label_of_accepted (by omega) (by decide) h hv with
    ⟨w, r, -, hlen, htake, -⟩ | ⟨w, ch, r, c, hwr, hlen, -, hdot, hloop⟩
  · have hget : (validDns.take (13 + w.length + 1))[13]? = some (UInt8.ofNat w.length) := by
      rw [← htake]; rfl
    rw [List.getElem?_take_of_lt (by omega)] at hget
    have := ofNat_inj_of_lt (m := 3) (by omega) (by omega) (Option.some.inj hget)
    omega
  · have hdns := congrArg List.length hwr
    simp only [List.length_drop, List.length_append, List.length_cons] at hdns
    have hw2 : w.length = 2 := by omega
    rw [hw2] at hdot
    have hB : (validDns.take 13 ++ UInt8.ofNat (2 + 1) :: (w ++ [ch]) ++ [0]).length = NAMESIZE := by
      simp only [List.length_append, List.length_cons, List.length_nil, hw2]
      rfl
    have hch : ch ≠ 46 := by
      rintro rfl
      exact no_dot_behind_flush hB rfl (by dsimp only; omega) hdot
        (transferLoop_keepsPrefix hloop) hv
    rw [flushAtDot, if_neg hch] at hdot
    cases hdot
    have hr : (46 : UInt8) ∉ r := by
      intro hmem
      obtain ⟨u, r', rfl, hu⟩ := List.eq_append_cons_of_mem hmem
      simp only [List.length_append, List.length_cons] at hdns
      rw [transferLoop_plain hu (Or.inr (by omega)), transferLoop, flushAt15, if_neg (by omega),
        ok_bind, bind_eq_ok] at hloop
      obtain ⟨c₂, hdot, hrest⟩ := hloop
      exact no_dot_behind_flush hB rfl (by dsimp only; omega) hdot
        (transferLoop_keepsPrefix hrest) hv
    refine ⟨r, hr, ?_⟩
    have hplain := transferLoop_plain (s := dns) (r := []) hr (Or.inr (by omega : 15 < 16))
      (c := ⟨validDns.take 13 ++ UInt8.ofNat (2 + 1) :: (w ++ [ch]) ++ [0], 13, 13 + 1, 2 + 1⟩)
    rw [List.append_nil] at hplain
    rw [hplain] at hloop
    cases hloop
    have hwch : w ++ [ch] = ascii "edu" := by
      obtain ⟨a, b, rfl⟩ := List.length_eq_two.mp hw2
      exact congrArg (fun b : Bytes => (b.drop 14).take 3) hv
    rw [hwr, ← hwch]
    simp

theorem transferLoop_videoHost (rest : Bytes) :
    transferLoop (videoHost ++ rest) (videoHost ++ rest) 0 .init =
      transferLoop (videoHost ++ rest) rest 16 ⟨validDns, 13, 14, 3⟩ := by
  have l0 := transferLoop_label (s := videoHost ++ rest) (E := []) (w := ascii "video")
    (r := ascii "cs.cmu.edu" ++ rest) (by decide) (by decide) rfl
  have l6 := transferLoop_label (s := videoHost ++ rest) (E := validDns.take 6)
    (w := ascii "cs") (r := ascii "cmu.edu" ++ rest) (by decide) (by decide) rfl
  have l9 := transferLoop_label (s := videoHost ++ rest) (E := validDns.take 9)
    (w := ascii "cmu") (r := ascii "edu" ++ rest) (by decide) (by decide) rfl
  have l13 := transferLoop_flush (s := videoHost ++ rest) (E := validDns.take 13)
    (w := ascii "ed") (x := 117) (r := rest) (by decide) (by decide) (by decide) rfl
  exact l0.trans (l6.trans (l9.trans l13))

/-- **The names encoded as `validDns`**: `video.cs.cmu.edu` and then any text without a dot. -/
theorem transferDnsName_eq_validDns_iff (name : CString) :
    transferDnsName name = .ok validDns ↔
      ∃ rest, (46 : UInt8) ∉ rest ∧ name.bytes = videoHost ++ rest := by
  unfold transferDnsName
  rw [bind_eq_ok]
  constructor
  · rintro ⟨c', h, hv⟩
    rw [pure_eq_ok, Except.ok.injEq] at hv
    obtain ⟨h6, l6⟩ := dotted_label_of_accepted 5 (k := 0) rfl (by omega) (by omega) h hv
    obtain ⟨h9, l9⟩ := dotted_label_of_accepted 2 rfl (by omega) (by omega) l6 hv
    obtain ⟨h13, l13⟩ := dotted_label_of_accepted 3 rfl (by omega) (by omega) l9 hv
    obtain ⟨rest, hrest, hedu⟩ := last_label_of_accepted l13 hv
    refine ⟨rest, hrest, ?_⟩
    rw [List.drop_zero] at h6
    rw [h6, h9, h13, hedu]
    rfl
  · rintro ⟨rest, hrest, he⟩
    have hplain := transferLoop_plain (s := name.bytes) (r := []) (i := 16)
      (c := ⟨validDns, 13, 14, 3⟩) hrest (Or.inr (by omega))
    rw [List.append_nil] at hplain
    refine ⟨⟨validDns, 13, 14, 3 + rest.length⟩, ?_, rfl⟩
    rw [he] at hplain ⊢
    rw [show (⟨List.replicate NAMESIZE 0, 0, 0, 0⟩ : NameCursor) = .init from rfl,
      transferLoop_videoHost, hplain, transferLoop]

/-! ## The check -/

/-- The encoder stays inside its array, and the check accepts the request exactly for
`video.cs.cmu.edu`. -/
def NameCheckExact (name : CString) : Prop :=
  ∃ request, genDnsRequest name = .ok request ∧
    (acceptsName request = true ↔ name.bytes = videoHost)

theorem genDnsRequest_eq_ok {name : CString} {request : Bytes} :
    genDnsRequest name = .ok request ↔ ∃ b, transferDnsName name = .ok b ∧
      request = [0, 0, 0, 0, 0, 1, 0, 0, 0, 0, 0, 0] ++ b ++ [0, 1] ++ [0, 1] := by
  unfold genDnsRequest
  simp only [bind_eq_ok, pure_eq_ok, Except.ok.injEq, eq_comm (b := request)]
  rfl

theorem transferDnsName_length {name : CString} {b : Bytes} (h : transferDnsName name = .ok b) :
    b.length = NAMESIZE := by
  simp only [transferDnsName, bind_eq_ok, pure_eq_ok, Except.ok.injEq] at h
  obtain ⟨c, hc, rfl⟩ := h
  exact (transferLoop_keepsPrefix hc).size.trans (by simp)

theorem acceptsName_iff {name : CString} {request : Bytes} (h : genDnsRequest name = .ok request) :
    acceptsName request = true ↔ transferDnsName name = .ok validDns := by
  obtain ⟨b, hb, rfl⟩ := genDnsRequest_eq_ok.mp h
  have hlen := transferDnsName_length hb
  unfold acceptsName
  rw [List.append_assoc, List.append_assoc, List.drop_left' (i := headerSize) rfl, List.take_left' hlen, hb]
  simp only [List.length_append, List.length_cons, List.length_nil, hlen, Bool.and_eq_true,
    decide_eq_true_eq, beq_iff_eq, Except.ok.injEq]
  exact ⟨fun h => h.2, fun h => ⟨by decide, h⟩⟩

/-- **When the name check is exact**: no dot comes too late for the encoder's array, and the name
does not continue `video.cs.cmu.edu` by further bytes without a dot. -/
theorem nameCheckExact_iff (name : CString) :
    NameCheckExact name ↔ DotsFit name.bytes ∧
      ¬ ∃ rest, rest ≠ [] ∧ (46 : UInt8) ∉ rest ∧ name.bytes = videoHost ++ rest := by
  rw [← transferDnsName_ok_iff]
  constructor
  · rintro ⟨request, hreq, hiff⟩
    obtain ⟨b, hb, -⟩ := genDnsRequest_eq_ok.mp hreq
    refine ⟨⟨b, hb⟩, ?_⟩
    rintro ⟨rest, hne, hdot, he⟩
    have hvideo := hiff.mp ((acceptsName_iff hreq).mpr
      ((transferDnsName_eq_validDns_iff name).mpr ⟨rest, hdot, he⟩))
    rw [he, List.append_right_eq_self] at hvideo
    exact hne hvideo
  · rintro ⟨⟨b, hb⟩, hno⟩
    refine ⟨_, genDnsRequest_eq_ok.mpr ⟨b, hb, rfl⟩, ?_⟩
    rw [acceptsName_iff (genDnsRequest_eq_ok.mpr ⟨b, hb, rfl⟩), transferDnsName_eq_validDns_iff]
    constructor
    · rintro ⟨rest, hdot, he⟩
      by_cases hne : rest = []
      · rw [he, hne, List.append_nil]
      · exact absurd ⟨rest, hne, hdot, he⟩ hno
    · intro he
      exact ⟨[], by simp, by rw [he, List.append_nil]⟩

/-- The host name `video.cs.cmu.edux` is accepted. -/
theorem nameCheck_false_accept :
    ¬ NameCheckExact ⟨ascii "video.cs.cmu.edux", by decide⟩ := by
  rintro ⟨request, hreq, hiff⟩
  have hacc := (acceptsName_iff hreq).mpr
    ((transferDnsName_eq_validDns_iff _).mpr ⟨ascii "x", by decide, by decide⟩)
  exact absurd (hiff.mp hacc) (by decide)

end VideoCdn
