import VideoCdn.ChunkPath
import VideoCdn.ManifestBody
import VideoCdn.SplitRequest

/-!
# Proxies in a row (`src/bitrate.c`, `src/handle.c`)

What one proxy sends is what the next one reads.

* `sendOn`, `sendOn_of_handled` — **requests**: as many bytes of the rewritten buffer as were read.
* `rewriteText_cut` — the last rate stays: a text that has been rewritten and cut is rewritten in the
  place of the first rate.
* `sendOn_chain` — behind any number of other proxies, whatever their trackers, a proxy that rewrites a
  request sends what it would send on its own, but for the bytes that wider rates have pushed out.
* `bodyLoop_endless`, `rewritten_again` — **manifests**: a manifest that a proxy has rewritten ends
  without a newline, so the next one reads on behind the block it is in.
-/

set_option autoImplicit false

namespace VideoCdn

open CLib

/-! ## Requests -/

/-- Another number in front of the first `Seg` leaves it the first. -/
theorem strstr_seg_of_digits {a mid tail digits : Bytes} (hdigits : ∀ c ∈ digits, isDigit c = true)
    (h : strstr (ascii "Seg") (a ++ 47 :: (mid ++ tail)) = some (a.length + 1 + mid.length)) :
    strstr (ascii "Seg") (a ++ 47 :: (digits ++ tail)) = some (a.length + 1 + digits.length) := by
  have hdrop : ∀ x : Bytes, (a ++ 47 :: (x ++ tail)).drop (a.length + 1 + x.length) = tail := by
    intro x
    have hassoc : a ++ 47 :: (x ++ tail) = (a ++ 47 :: x) ++ tail := by simp
    have hlength : a.length + 1 + x.length = (a ++ 47 :: x).length := by
      rw [List.length_append, List.length_cons]
      omega
    rw [hassoc, hlength, List.drop_left]
  obtain ⟨-, hseg, hfirst⟩ := strstr_spec h
  rw [hdrop] at hseg
  refine strstr_of_first ?_ ?_ (fun j hj hpre => ?_)
  · rw [List.length_append, List.length_cons, List.length_append]
    omega
  · rw [hdrop]
    exact hseg
  rcases Nat.lt_or_ge a.length j with hlt | hge
  · -- Inside the number there is no `S`.
    obtain ⟨k, rfl⟩ : ∃ k, j = a.length + 1 + k := ⟨j - (a.length + 1), by omega⟩
    have hk : k < digits.length := by omega
    have hhead : (a ++ 47 :: (digits ++ tail))[a.length + 1 + k]? = some 83 := by
      obtain ⟨rest, hrest⟩ := hpre
      rw [← Nat.add_zero (a.length + 1 + k), ← List.getElem?_drop, ← hrest]
      rfl
    have hpos : a.length + 1 + k - a.length = k + 1 := by omega
    rw [List.getElem?_append_right (by omega), hpos, List.getElem?_cons_succ,
      List.getElem?_append_left hk] at hhead
    exact absurd (hdigits 83 (List.mem_of_getElem? hhead)) (by decide)
  · rw [List.drop_append_of_le_length hge] at hpre
    rcases prefix_append_cons hpre with hpre | ⟨rest, hslash, -⟩
    · refine hfirst j (by omega) ?_
      rw [List.drop_append_of_le_length hge]
      exact hpre.trans (List.prefix_append _ _)
    · have hmem : (47 : UInt8) ∈ ascii "Seg" := by
        rw [hslash]
        simp
      exact absurd hmem (by decide)

/-- A proxy on the way: the descriptor it reads the request from, and its trackers. -/
structure Relay where
  fd : Nat
  trackers : Trackers

/-- The rate that the proxy puts into the request. -/
def Relay.rate (relay : Relay) : Nat := selectRate (trackerOf relay.fd relay.trackers).throughput

/-- What a proxy hands to `write` for a request for a chunk: as many bytes of the buffer as were read. -/
def Relay.sendOn (text : Bytes) (relay : Relay) : Checked Bytes := do
  let (buffer, _) ← updateBitrate (readBuffer text) relay.fd relay.trackers
  return buffer.take text.length

/-- It is what `handle_client_recv` hands to `write` for a chunk, with the trackers that
`create_tracker` leaves. -/
theorem sendOn_of_handled {env : ClientRecv} {sid : Nat} {node : Session} {st st' : ProxyState}
    {evs : List ProxyEvent} (hrun : handleClientRecv env sid node st = .ok (st', evs))
    (hout : upstreamBytes evs ≠ [])
    (hchunk : (strstr (ascii "-Frag") (requestFile env env.text)).isNone = false) : ∃ trackers,
      createTracker (requestFile env env.text) node.clientFd st.trackers = some trackers ∧
      Relay.sendOn env.text ⟨node.clientFd, trackers⟩ = .ok (upstreamBytes evs) := by
  have hsent : ∀ {req buffer : Bytes} {st₂ : ProxyState} {es : List ProxyEvent},
      env.read = some req →
      trackChunk env.now sid (node.connectedTo (st.newServer node)) (requestFile env req)
        (readBuffer req) (st.reconnect sid node) = .ok (buffer, st₂, es) → ∃ trackers,
        createTracker (requestFile env env.text) node.clientFd st.trackers = some trackers ∧
        Relay.sendOn env.text ⟨node.clientFd, trackers⟩ = .ok (buffer.take req.length) := by
    intro req buffer st₂ es hread htrack
    obtain rfl : env.text = req := by
      unfold ClientRecv.text
      rw [hread]
      rfl
    rcases trackChunk_eq_ok.mp htrack with ⟨hnone, -⟩ | ⟨trackers, trackers', hcreate, hupd, -, -⟩
    · rw [createTracker_none_iff, hchunk] at hnone
      cases hnone
    · rw [st.trackers_reconnect] at hcreate
      refine ⟨trackers, hcreate, ?_⟩
      unfold Relay.sendOn
      rw [show updateBitrate (readBuffer env.text) node.clientFd trackers = .ok (buffer, trackers')
        from hupd]
      rfl
  cases handleClientRecv_step hrun with
  | readError => exact absurd rfl hout
  | noServer => exact absurd rfl hout
  | refused => exact absurd rfl hout
  | refusedRewritten req buffer st₂ es hread htrack =>
    exact absurd (upstreamBytes_trackChunk htrack _) hout
  | forwarded req buffer st₂ es hread htrack =>
    obtain ⟨trackers, hcreate, hsend⟩ := hsent hread htrack
    refine ⟨trackers, hcreate, ?_⟩
    rw [hsend, upstreamBytes_append, upstreamBytes_trackChunk htrack]
    simp [upstreamBytes]
  | forwardedReady req buffer st₂ es hread htrack =>
    obtain ⟨trackers, hcreate, hsend⟩ := hsent hread htrack
    refine ⟨trackers, hcreate, ?_⟩
    rw [hsend, upstreamBytes_append, upstreamBytes_trackChunk htrack]
    simp [upstreamBytes]

/-- One proxy: the string that it sends is cut where the bytes read end. -/
theorem Relay.sendOn_string {text out : Bytes} {relay : Relay} (hlen : text.length ≤ MAX_LENGTH)
    (h : relay.sendOn text = .ok out) : out.length = text.length ∧ ∃ text',
      rewriteText relay.rate (cstr text) = .ok text' ∧ cstr out = text'.take text.length := by
  unfold sendOn at h
  simp only [bind_eq_ok, pure_eq_ok, Except.ok.injEq, Prod.exists] at h
  obtain ⟨buffer, trackers', hupdate, rfl⟩ := h
  obtain ⟨tl, c, chunks, file, hsearch, -, hrewrite, -⟩ := updateBitrate_spec hupdate
  have hrate : relay.rate = selectRate tl.throughput := by
    unfold rate trackerOf
    rw [hsearch]
    rfl
  obtain ⟨text', htext', hroom, rfl⟩ := rewriteRequest_eq_ok.mp hrewrite
  rw [length_readBuffer hlen] at hroom
  constructor
  · rw [List.length_take, List.length_append, List.length_cons, List.length_drop,
      length_readBuffer hlen]
    omega
  · refine ⟨text', ?_, cstr_take (no_nul_rewriteText htext' (no_nul_cstr _)) _ _⟩
    rw [hrate, ← htext', cstr_readBuffer]

section Cut
variable {a x tail text' : Bytes}

/-- A text that is cut somewhere behind its first `Seg` is rewritten in front of that `Seg`. -/
theorem rewriteText_cut (hx : (47 : UInt8) ∉ x)
    (hseg : strstr (ascii "Seg") (a ++ 47 :: (x ++ tail)) = some (a.length + 1 + x.length))
    {rate m n : Nat}
    (h : rewriteText rate ((a ++ 47 :: (x ++ tail.take m)).take n) = .ok text') :
    text' = a ++ 47 :: (decimal rate ++ tail.take (min m (n - (a.length + 1 + x.length)))) := by
  have hpre : (a ++ 47 :: (x ++ tail.take m)).take n <+: a ++ 47 :: (x ++ tail) := by
    refine (List.take_prefix _ _).trans ?_
    rw [List.prefix_append_right_inj, List.cons_prefix_cons]
    refine ⟨rfl, ?_⟩
    rw [List.prefix_append_right_inj]
    exact List.take_prefix _ _
  obtain ⟨a₂, mid₂, tail₂, -, -, hseg₂, -⟩ := rewriteText_eq_ok.mp h
  have hplace := strstr_of_prefix hpre hseg hseg₂
  obtain ⟨-, hfound, -⟩ := strstr_spec hseg₂
  -- the `Seg` is in front of the cut
  have hroom : a.length + 1 + x.length ≤ n := by
    have hlen := hfound.length_le
    rw [List.length_drop, List.length_take] at hlen
    have h3 : (ascii "Seg").length = 3 := rfl
    omega
  have hfront : (a ++ 47 :: x).length = a.length + 1 + x.length := by
    rw [List.length_append, List.length_cons]
    omega
  have hcut : (a ++ 47 :: (x ++ tail.take m)).take n =
      a ++ 47 :: (x ++ tail.take (min m (n - (a.length + 1 + x.length)))) := by
    have hassoc : ∀ y : Bytes, a ++ 47 :: (x ++ y) = (a ++ 47 :: x) ++ y := by simp
    rw [hassoc, hassoc, List.take_append, hfront, List.take_of_length_le (by omega), List.take_take,
      Nat.min_comm]
  rw [hplace] at hseg₂
  rw [hcut] at h hseg₂
  exact Except.ok.inj (h.symm.trans (rewriteText_eq_ok.mpr ⟨a, x, _, rfl, hx, hseg₂, rfl⟩))

/-- The widest rate that is put into the request on the way. -/
def widest (relays : List Relay) : Nat :=
  relays.foldr (fun relay width => max (decimal relay.rate).length width) 0

/-- What the proxies leave of a text with the number `x` in front of its `Seg`: `w` is the widest number
that has stood there before. -/
theorem sendOn_chain_cut (hx : (47 : UInt8) ∉ x)
    (hseg : strstr (ascii "Seg") (a ++ 47 :: (x ++ tail)) = some (a.length + 1 + x.length)) {w n : Nat}
    {relays : List Relay} {last : Relay} {text sent : Bytes} (hlen : text.length ≤ MAX_LENGTH)
    (hn : text.length = a.length + 1 + n)
    (htext : cstr text = (a ++ 47 :: (x ++ tail.take (n - w))).take text.length)
    (h : (relays ++ [last]).foldlM Relay.sendOn text = .ok sent) : sent.length = text.length ∧
      cstr sent = (a ++ 47 :: (decimal last.rate ++
        tail.take (n - max w (max x.length (widest relays))))).take text.length := by
  induction relays generalizing x w text with
  | nil =>
    rw [List.nil_append, List.foldlM_cons, bind_eq_ok] at h
    obtain ⟨out, hlast, hrest⟩ := h
    cases hrest
    obtain ⟨hsame, text', hrewrite, hout⟩ := Relay.sendOn_string hlen hlast
    rw [htext] at hrewrite
    rw [hout, rewriteText_cut hx hseg hrewrite]
    refine ⟨hsame, ?_⟩
    have hmin : min (n - w) (text.length - (a.length + 1 + x.length)) =
        n - max w (max x.length (widest [])) := by
      show _ = n - max w (max x.length 0)
      omega
    rw [hmin]
  | cons relay relays ih =>
    rw [List.cons_append, List.foldlM_cons, bind_eq_ok] at h
    obtain ⟨out, hfirst, hrest⟩ := h
    obtain ⟨hsame, text', hrewrite, hout⟩ := Relay.sendOn_string hlen hfirst
    rw [htext] at hrewrite
    rw [rewriteText_cut hx hseg hrewrite, ← hsame] at hout
    have hmin : min (n - w) (text.length - (a.length + 1 + x.length)) = n - max w x.length := by
      omega
    rw [hsame, hmin, ← hsame] at hout
    have hdigits := @strstr_seg_of_digits a x tail (decimal relay.rate)
      (fun c hc => isDigit_of_mem_decimal hc) hseg
    obtain ⟨hend, hstring⟩ := ih (ChunkText.slash_notMem_decimal relay.rate) hdigits
      (by rw [hsame]; exact hlen) (by rw [hsame]; exact hn) hout hrest
    have hmax : max (max w x.length) (max (decimal relay.rate).length (widest relays)) =
        max w (max x.length (widest (relay :: relays))) := by
      show _ = max w (max x.length (max (decimal relay.rate).length (widest relays)))
      omega
    rw [hmax, hsame] at hstring
    exact ⟨hend.trans hsame, hstring⟩

end Cut

/-- **Requests in a row**: if every proxy on the way rewrites the request, the last one sends it with its
own rate, as if there were no others before it; but the end is cut off by as many bytes as a rate on the
way was wider than the number in the request, and behind the bytes that were read. -/
theorem sendOn_chain {text sent : Bytes} (hnul : (0 : UInt8) ∉ text)
    (hfits : text.length < MAX_LENGTH) {relays : List Relay} {last : Relay}
    (h : (relays ++ [last]).foldlM Relay.sendOn text = .ok sent) : sent.length = text.length ∧
      ∃ a mid tail, text = a ++ 47 :: (mid ++ tail) ∧ (47 : UInt8) ∉ mid ∧
        strstr (ascii "Seg") text = some (a.length + 1 + mid.length) ∧
        cstr sent = (a ++ 47 :: (decimal last.rate ++
          tail.take (tail.length - (widest relays - mid.length)))).take text.length := by
  have hcstr : cstr text = text := cstr_of_no_nul hnul
  obtain ⟨first, rest, hrow⟩ : ∃ first rest, relays ++ [last] = first :: rest := by
    cases relays with
    | nil => exact ⟨last, [], rfl⟩
    | cons relay relays => exact ⟨relay, relays ++ [last], rfl⟩
  have hfirst := h
  rw [hrow, List.foldlM_cons, bind_eq_ok] at hfirst
  obtain ⟨out, hfirst, -⟩ := hfirst
  obtain ⟨-, text', hrewrite, -⟩ := Relay.sendOn_string hfits.le hfirst
  rw [hcstr] at hrewrite
  obtain ⟨a, mid, tail, hsplit, hmid, hseg, -⟩ := rewriteText_eq_ok.mp hrewrite
  have hlength : text.length = a.length + 1 + (mid.length + tail.length) := by
    rw [hsplit, List.length_append, List.length_cons, List.length_append]
    omega
  have hwhole : cstr text =
      (a ++ 47 :: (mid ++ tail.take (mid.length + tail.length - 0))).take text.length := by
    rw [hcstr, List.take_of_length_le (show tail.length ≤ _ by omega), ← hsplit, List.take_length]
  obtain ⟨hend, hstring⟩ := sendOn_chain_cut hmid (hsplit ▸ hseg) hfits.le hlength hwhole h
  have hcut : mid.length + tail.length - max 0 (max mid.length (widest relays)) =
      tail.length - (widest relays - mid.length) := by
    omega
  rw [hcut] at hstring
  exact ⟨hend, a, mid, tail, hsplit, hmid, hseg, hstring⟩

def chunkRequest : Bytes := ascii "GET /vod/1Seg1-Frag1 HTTP/1.1\r\n\r\n"

def slowRelay : Relay := ⟨4, [⟨4, [ascii "/vod/1Seg1-Frag1"], 100, 20⟩]⟩

def fastRelay : Relay := ⟨4, [⟨4, [ascii "/vod/1Seg1-Frag1"], 100, 800⟩]⟩

/-- Behind a proxy that asks for `500`, the slow one asks for `10`; the two bytes by which the `500` is
wider than the `1` in the request are cut off at its end. -/
theorem sendOn_chain_slow : ∃ sent,
    ([fastRelay] ++ [slowRelay]).foldlM Relay.sendOn chunkRequest = .ok sent ∧
    cstr sent = ascii "GET /vod/10Seg1-Frag1 HTTP/1.1\r\n" ∧ sent.length = chunkRequest.length ∧
    ∃ a mid tail, chunkRequest = a ++ 47 :: (mid ++ tail) ∧ (47 : UInt8) ∉ mid ∧
      strstr (ascii "Seg") chunkRequest = some (a.length + 1 + mid.length) ∧
      cstr sent = (a ++ 47 :: (decimal slowRelay.rate ++
        tail.take (tail.length - (widest [fastRelay] - mid.length)))).take chunkRequest.length := by
  have hrow : ([fastRelay] ++ [slowRelay]).foldlM Relay.sendOn chunkRequest =
      .ok (ascii "GET /vod/10Seg1-Frag1 HTTP/1.1\r\n" ++ [0]) := by
    decide +kernel
  exact ⟨_, hrow, by decide, sendOn_chain (by decide) (by decide) hrow⟩

/-! ## Manifests -/

/-- Lines that do not stop the loop over the body, and no newline behind them. -/
theorem bodyLoop_endless {lines : List Bytes} (hlines : ∀ line ∈ lines, IsLine line)
    (hkinds : ∀ line ∈ lines, lineKind line = .media ∨ lineKind line = .other) {tail : Bytes}
    (hno : (10 : UInt8) ∉ tail) (htail : tail.length < MAX_LENGTH) (noWrite : Bool) (buffer : Bytes)
    (slots : List Int) :
    bodyLoop (lines.flatten ++ tail) noWrite buffer slots = .error .outOfBounds := by
  induction lines generalizing noWrite buffer with
  | nil => exact bodyLoop_stuck (readLine_noNewline hno htail) noWrite buffer slots
  | cons line lines ih =>
    obtain ⟨hline, hlines⟩ := List.forall_mem_cons.mp hlines
    obtain ⟨hkind, hkinds⟩ := List.forall_mem_cons.mp hkinds
    have ih := ih hlines hkinds
    have hcopy : ∀ noWrite', (copyLine noWrite line.length line buffer >>= fun buffer =>
        bodyLoop (lines.flatten ++ tail) noWrite' buffer slots) = .error .outOfBounds := by
      intro noWrite'
      unfold copyLine
      split
      · exact ih noWrite' buffer
      · by_cases hfits : line.length ≤ MAX_LENGTH ∧ buffer.length + line.length ≤ BODY_LENGTH
        · rw [inBounds_pos hfits]
          exact ih noWrite' (buffer ++ line)
        · rw [inBounds_neg hfits]
          rfl
    rw [List.flatten_cons, List.append_assoc, bodyLoop_line hline]
    rcases hkind with hkind | hkind
    · rw [hkind]
      exact hcopy true
    · rw [hkind]
      exact hcopy noWrite

/-- What is kept of some lines is lines that do not stop the loop. -/
theorem exists_keptLines {lines : List Bytes} (hlines : ∀ line ∈ lines, IsLine line) :
    ∃ kept : List Bytes, keptLines lines = kept.flatten ∧ (∀ line ∈ kept, IsLine line) ∧
      ∀ line ∈ kept, lineKind line = .media ∨ lineKind line = .other := by
  induction lines with
  | nil => exact ⟨[], rfl, nofun, nofun⟩
  | cons line lines ih =>
    obtain ⟨hline, hlines⟩ := List.forall_mem_cons.mp hlines
    obtain ⟨kept, hkept, hall, hkinds⟩ := ih hlines
    unfold keptLines
    cases hkind : lineKind line with
    | bitrate => exact ⟨kept, hkept, hall, hkinds⟩
    | media => exact ⟨[line], by simp, by simpa using hline, by simp [hkind]⟩
    | manifest => exact ⟨[], rfl, nofun, nofun⟩
    | other =>
      refine ⟨line :: kept, ?_, List.forall_mem_cons.mpr ⟨hline, hall⟩,
        List.forall_mem_cons.mpr ⟨Or.inr hkind, hkinds⟩⟩
      dsimp only
      rw [hkept, List.flatten_cons]

/-- The loop over a body that has been rewritten reads on behind it. -/
theorem bodyLoop_rewrittenBody {lines : List Bytes} (hlines : ∀ line ∈ lines, IsLine line)
    (slots : List Int) :
    bodyLoop (10 :: rewrittenBody lines) false [] slots = .error .outOfBounds := by
  obtain ⟨kept, hkept, hall, hkinds⟩ := exists_keptLines hlines
  have hsplit : 10 :: rewrittenBody lines = ([10] :: kept).flatten ++ ascii "</manifest>" := by
    unfold rewrittenBody
    rw [hkept]
    rfl
  rw [hsplit]
  exact bodyLoop_endless (List.forall_mem_cons.mpr ⟨isLine_lineFeed, hall⟩)
    (List.forall_mem_cons.mpr ⟨Or.inr lineKind_lineFeed, hkinds⟩) (by decide) (by decide) false []
    slots

theorem writeF4mNolist_stuck {src : Bytes} {offset : Nat} {slots : List Int}
    (h : bodyLoop (src.drop offset) false [] slots = .error .outOfBounds) :
    writeF4mNolist src offset slots = .error .outOfBounds := by
  unfold writeF4mNolist
  by_cases hfits : offset ≤ MAX_LENGTH ∧ offset ≤ src.length
  · rw [inBounds_pos hfits, ok_bind, h]
    rfl
  · rw [inBounds_neg hfits]
    rfl

/-- The first line that passes for a content type hands the response over. -/
theorem parseF4mResponse_typeLine {front : List Bytes} {typeLine : Bytes}
    (hlines : ∀ line ∈ front, IsLine line) (hline : IsLine typeLine)
    (hfront : ∀ line ∈ front, isTypeLine line = false)
    (htype : contentTypeWord typeLine = .ok (ascii "text/xml")) (behind : Bytes) (slots : List Int) :
    parseF4mResponse ((front ++ [typeLine]).flatten ++ behind) slots = (do
      let (newBuffer, slots) ← writeF4mNolist ((front ++ [typeLine]).flatten ++ behind)
        ((front ++ [typeLine]).flatten.length + 1) slots
      return (.manifest newBuffer, slots)) := by
  have hlast : isTypeLine typeLine = true :=
    startWith_of_prefix (List.IsPrefix.trans (by decide) (contentTypeWord_isPrefix htype)) (by decide)
  have hscan : scanLines isTypeLine ((front ++ [typeLine]).flatten ++ behind) =
      .ok ((front ++ [typeLine]).flatten.length, typeLine) := by
    rw [List.flatten_append, List.append_assoc, scanLines_lines hlines hfront,
      List.flatten_singleton, scanLines_turn (readLine_line hline behind), if_pos hlast]
    simp [Except.map]
  have hclass : classify ((front ++ [typeLine]).flatten ++ behind) =
      .ok (.manifest, (front ++ [typeLine]).flatten.length) := by
    unfold classify
    rw [hscan]
    dsimp only
    rw [htype]
    rfl
  rw [parseF4mResponse_eq, hclass]
  rfl

/-- A line with the new length does not pass for a content type, and other lines stay. -/
theorem Header.isTypeLine_rewritten {h : Header} (n : Nat)
    (hno : startWith h.line (ascii "Content-Type") = false) : isTypeLine (h.rewritten n) = false := by
  unfold rewritten
  split
  · refine startWith_eq_false rfl (fun htype => ?_)
    have hname : ascii "Content-Length: " <+: contentLengthLine n :=
      ⟨decimal n ++ [13, 10], by rw [contentLengthLine, List.append_assoc]⟩
    have hlength : ascii "Content-Length" <+: contentLengthLine n :=
      List.IsPrefix.trans (by decide) hname
    exact absurd (List.prefix_of_prefix_length_le htype hlength (by decide)) (by decide)
  · exact hno

/-- **Manifests in a row**: what a proxy makes of a manifest, when it does what it should, makes the
next one read past the end of the block. -/
theorem rewritten_again {r : F4mResponse} (h : SeamFits r) (slots : List Int) :
    parseF4mResponse r.rewritten slots = .error .outOfBounds := by
  obtain ⟨⟨front, last, hsplit, hfront, htype⟩, -, -, hstop, -⟩ := h
  have hle : (rewrittenBody r.lines).length ≤ (r.lines.flatten ++ r.tail).length := by
    rw [List.length_append]
    exact Nat.le_trans (length_rewrittenBody_le hstop) (Nat.le_add_right _ _)
  have hline : ∀ h ∈ r.headers, IsLine (h.rewritten (rewrittenBody r.lines).length) := by
    intro h hmem
    refine ⟨h.endsLine_rewritten _, ?_⟩
    exact Nat.lt_of_le_of_lt (Header.length_rewritten_le (r.header_fits h hmem) hle) h.isLine.fits
  rw [hsplit] at hline
  have hlast : last.rewritten (rewrittenBody r.lines).length = last.line := by
    refine if_neg (fun hkind => ?_)
    have hmem : last ∈ r.headers := hsplit ▸ List.mem_append_right _ List.mem_cons_self
    have hlength := Header.startWith_length (r.header_fits last hmem) hkind
    rw [not_length_of_type htype] at hlength
    cases hlength
  have hbytes : r.rewritten =
      (front.map (Header.rewritten (rewrittenBody r.lines).length) ++ [last.line]).flatten ++
        (13 :: 10 :: rewrittenBody r.lines) := by
    unfold F4mResponse.rewritten
    rw [hsplit, List.map_append, List.map_singleton, hlast, List.append_assoc]
    rfl
  rw [hbytes, parseF4mResponse_typeLine _ last.isLine _ htype]
  · rw [writeF4mNolist_stuck]
    · rfl
    · rw [List.drop_append, List.drop_eq_nil_of_le (Nat.le_succ _), Nat.add_sub_cancel_left]
      exact bodyLoop_rewrittenBody r.isLine slots
  · exact List.forall_mem_map.mpr fun h hh => hline h (List.mem_append_left _ hh)
  · exact List.forall_mem_map.mpr fun h hh => Header.isTypeLine_rewritten _ (hfront h hh)

/-- The length in front of the type. -/
def typeLastResponse : F4mResponse where
  headers := [statusLine, lengthLine, typeLine]
  lines := lengthLast.lines
  tail := lengthLast.tail
  header_fits := by
    have hfits := lengthLast.header_fits
    intro h hmem
    refine hfits h ?_
    simp only [lengthLast, List.mem_cons, List.not_mem_nil, or_false] at hmem ⊢
    tauto
  has_length := ⟨lengthLine, by simp, rfl⟩
  has_type := ⟨typeLine, by simp, rfl⟩
  isLine := lengthLast.isLine
  tail_noNewline := lengthLast.tail_noNewline
  tail_fits := lengthLast.tail_fits
  ends := lengthLast.ends

/-- A manifest that is rewritten once is not rewritten twice. -/
theorem rewritten_again_typeLast :
    parseF4mResponse typeLastResponse.rewritten [] = .error .outOfBounds := by
  have hstops : StopsSafely typeLastResponse.lines := by
    have hopen : lineKind (ascii "<manifest>\n") = .other := by decide
    have hclose : lineKind (ascii "</manifest>\n") = .manifest := by decide
    simp [typeLastResponse, lengthLast, StopsSafely, hopen, hclose]
  refine rewritten_again ⟨⟨[statusLine, lengthLine], typeLine, rfl, ?_, ?_⟩, ?_, ?_, hstops, ?_⟩ []
  · decide
  · decide
  · decide
  · decide
  · decide

end VideoCdn
