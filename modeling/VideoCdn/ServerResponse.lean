import VideoCdn.Proxy

/-!
# Responses passed on to the client (`handle_server_recv` of `src/handle.c`)

The block that the client gets is as long as the header and the announced body, whatever `recv`
returned: `total_read += next_read` adds the length asked for.

* `announcedLength` — the length in the header, read as the protocol means it.
* `OtherResponse` — a response that `parse_f4m_response` finds to be no manifest.
* `PassedExactly`, `passedExactly_iff` — the client gets what the server delivered exactly when the
  body is delivered in full.
* `passed_short_body` — a body of one byte, where two were announced, arrives as two bytes.
-/

set_option autoImplicit false

namespace VideoCdn

open CLib

/-! ## What the server delivers -/

def toLower (c : UInt8) : UInt8 := if 65 ≤ c ∧ c ≤ 90 then c + 32 else c

/-- The value of a header line that is a `Content-Length` field. -/
def contentLengthField (line : Bytes) : Option Nat :=
  let name := (line.takeWhile (· != 58)).map toLower
  let value := ((line.dropWhile (· != 58)).drop 1).dropWhile isSpace
  if name = ascii "content-length" ∧ value.takeWhile isDigit ≠ [] then some (digitsValue value)
  else none

def announcedLength (header : Bytes) : Option Nat := (getlines header).findSome? contentLengthField

/-- The body: what the server delivers behind the header, at most as much as it announced. -/
def deliveredBody (header recv : Bytes) : Bytes :=
  match announcedLength header with
  | none => recv
  | some length => recv.take length

theorem deliveredBody_isPrefix (header recv : Bytes) : deliveredBody header recv <+: recv := by
  unfold deliveredBody
  split
  · exact List.prefix_refl recv
  · exact List.take_prefix _ recv

/-! ## What the client gets -/

/-- `big_buffer`, with the zeros that `memset` left where `recv` stored nothing. -/
def bigBuffer (header recv : Bytes) (nextRead : Nat) : Bytes :=
  header ++ recv.take nextRead ++ List.replicate (nextRead - (recv.take nextRead).length) 0

/-- A response whose header is read as `header` and its length as `nextRead`, with the result of
`parse_f4m_response`: not a manifest. -/
structure OtherResponse (env : ServerRecv) (node : Session) (header : Bytes) (nextRead : Nat)
    (result : ParseResult) : Prop where
  header_read : readHeader env.reads 0 [] = .ok header
  length_read : getResponseContentLength (readBuffer header) = .ok (nextRead : Int)
  fits_int : nextRead + header.length < 2147483648
  parsed : ∃ bitrate, parseF4mResponse (bigBuffer header env.recv nextRead) node.bitrate =
    .ok (result, bitrate)
  not_manifest : result = .video ∨ result = .other

/-- The session has descriptors that fit in a set, as `main` has checked. -/
structure Connected (node : Session) (fd : Nat) : Prop where
  server : node.serverFd = some fd
  server_fits : fd < FD_SETSIZE
  client_fits : node.clientFd < FD_SETSIZE

/-- The bytes written to clients. -/
def downstreamBytes (evs : List ProxyEvent) : Bytes :=
  evs.flatMap fun ev => match ev with
    | .downstream _ bytes => bytes
    | _ => []

/-- The call returns, and the client has got the header and the body. -/
def PassedExactly (alpha : ℚ) (env : ServerRecv) (sid : Nat) (node : Session) (st : ProxyState)
    (header : Bytes) : Prop :=
  ∃ st' evs, handleServerRecv alpha env sid node st = .ok (st', evs) ∧
    downstreamBytes evs = header ++ deliveredBody header env.recv

/-- What `update_throughput` relies on: a start time, and a tracker with a chunk. -/
structure Measurable (node : Session) (trackers : Trackers) (block : Bytes) : Prop where
  started : node.ts ≠ none
  tracked : ∃ tracker, searchSeg node.clientFd trackers = some tracker ∧ tracker.chunks ≠ []
  terminated : (strstr (ascii "Content-Type: video/f4f") (cstr block)).isSome ∨ 0 ∈ block

/-- The block holds the response exactly when the length read is that of the delivered body. -/
theorem bigBuffer_eq_iff (header : Bytes) {recv body : Bytes} (nextRead : Nat)
    (hbody : body <+: recv) :
    bigBuffer header recv nextRead = header ++ body ↔ body.length = nextRead := by
  unfold bigBuffer
  rw [List.append_assoc, List.append_cancel_left_eq]
  constructor
  · intro heq
    rw [← heq, List.length_append, List.length_replicate, List.length_take]
    omega
  · intro hlen
    have hle : nextRead ≤ recv.length := hlen ▸ hbody.length_le
    have htake : recv.take nextRead = body := by
      rw [← hlen]
      exact (List.prefix_iff_eq_take.mp hbody).symm
    rw [htake, hlen, Nat.sub_self, List.replicate_zero, List.append_nil]

theorem updateThroughput_isOk_iff {alpha : ℚ} {size : Int} {fd : Nat} {ts tf : Timespec}
    {trackers : Trackers} : (∃ res, updateThroughput alpha size fd ts tf trackers = .ok res) ↔
      ∃ tracker, searchSeg fd trackers = some tracker ∧ tracker.chunks ≠ [] := by
  unfold updateThroughput
  cases searchSeg fd trackers with
  | none => simp
  | some tracker =>
    cases hlast : tracker.chunks.getLast? with
    | none => simp [List.getLast?_eq_none_iff.mp hlast]
    | some file =>
      have hne : tracker.chunks ≠ [] := by
        intro hnil
        rw [hnil] at hlast
        cases hlast
      dsimp only
      rw [hlast]
      simp [hne]

/-- **What the client gets** of a response that is no manifest: the whole block, unless it is a chunk
that cannot be measured. -/
theorem passResponse_block (alpha : ℚ) (now : Timespec) (sid : Nat) (node : Session)
    (block : Bytes) {result : ParseResult} (st : ProxyState)
    (hresult : result = .video ∨ result = .other) :
    (result = .video → Measurable node st.trackers block) ↔ ∃ st' evs,
      passResponse alpha now sid node block result st = .ok (st', evs) := by
  rcases hresult with rfl | rfl
  · simp only [passResponse, forall_const]
    constructor
    · rintro ⟨hts, htracked, hterm⟩
      obtain ⟨ts, hts⟩ := Option.ne_none_iff_exists'.mp hts
      obtain ⟨⟨trackers, log⟩, hupd⟩ := updateThroughput_isOk_iff.mpr htracked
      exact ⟨_, _, by rw [inBounds_pos hterm, ok_bind, hts]; dsimp only; rw [hupd, ok_bind]; rfl⟩
    · rintro ⟨st', evs, hrun⟩
      rw [inBounds_bind_eq_ok] at hrun
      obtain ⟨hterm, hrun⟩ := hrun
      split at hrun
      · cases hrun
      · rename_i ts hts
        rw [bind_eq_ok] at hrun
        obtain ⟨res, hupd, -⟩ := hrun
        exact ⟨by rw [hts]; simp, updateThroughput_isOk_iff.mp ⟨res, hupd⟩, hterm⟩
  · simp [passResponse]

theorem downstreamBytes_passResponse {alpha : ℚ} {now : Timespec} {sid : Nat} {node : Session}
    {block : Bytes} {result : ParseResult} {st st' : ProxyState} {evs : List ProxyEvent}
    (hresult : result = .video ∨ result = .other)
    (hrun : passResponse alpha now sid node block result st = .ok (st', evs)) :
    downstreamBytes evs = block := by
  unfold passResponse at hrun
  rcases hresult with rfl | rfl
  · rw [inBounds_bind_eq_ok] at hrun
    obtain ⟨-, hrun⟩ := hrun
    split at hrun
    · cases hrun
    · rw [bind_eq_ok] at hrun
      obtain ⟨⟨trackers, log⟩, -, hrun⟩ := hrun
      cases hrun
      simp [downstreamBytes]
  · cases hrun
    simp [downstreamBytes]

/-- One call on a response that is no manifest. -/
theorem handleServerRecv_other (alpha : ℚ) {env : ServerRecv} (sid : Nat) {node : Session}
    (st : ProxyState) {fd : Nat} {header : Bytes} {nextRead : Nat} {result : ParseResult}
    (hfd : Connected node fd) (h : OtherResponse env node header nextRead result) :
    ∃ bitrate, ∀ evs, (∃ st', handleServerRecv alpha env sid node st = .ok (st', evs)) ↔
      ∃ st', passResponse alpha env.now sid { node with bitrate := bitrate }
        (bigBuffer header env.recv nextRead) result
        (st.setSession sid { node with bitrate := bitrate }) = .ok (st', evs) := by
  obtain ⟨hheader, hlength, hint, ⟨bitrate, hparse⟩, -⟩ := h
  refine ⟨bitrate, fun evs => ?_⟩
  unfold handleServerRecv
  rw [hfd.server]
  dsimp only
  rw [hheader, ok_bind, hlength, ok_bind, inBounds_pos (by omega), ok_bind, Int.toNat_natCast]
  unfold bigBuffer at hparse
  rw [hparse, ok_bind]
  dsimp only
  unfold bigBuffer
  constructor
  · rintro ⟨st', hrun⟩
    rw [bind_eq_ok] at hrun
    obtain ⟨⟨st₁, evs₁⟩, hpass, hrun⟩ := hrun
    simp only [bind_eq_ok, pure_eq_ok, Except.ok.injEq, Prod.mk.injEq] at hrun
    obtain ⟨_, -, _, -, -, rfl⟩ := hrun
    exact ⟨st₁, hpass⟩
  · rintro ⟨st₁, hpass⟩
    have hclr : ∀ (st₂ : ProxyState) (n : Nat), n < FD_SETSIZE →
        st₂.fdClr n = .ok { st₂ with readyToRead := st₂.readyToRead.erase n } :=
      fun st₂ n hn => ProxyState.fdClr_eq_ok.mpr ⟨hn, rfl⟩
    refine ⟨({ st₁ with readyToRead := (st₁.readyToRead.erase fd).erase node.clientFd } :
      ProxyState).close node.clientFd, ?_⟩
    rw [hpass, ok_bind]
    dsimp only
    rw [hclr _ _ hfd.server_fits, ok_bind, hclr _ _ hfd.client_fits, ok_bind]
    rfl

/-- **When the client gets what was delivered**: the body is delivered with the length that is read
from the header, and a chunk can be measured. -/
theorem passedExactly_iff (alpha : ℚ) {env : ServerRecv} (sid : Nat) {node : Session}
    (st : ProxyState) {fd : Nat} {header : Bytes} {nextRead : Nat} {result : ParseResult}
    (hfd : Connected node fd) (h : OtherResponse env node header nextRead result) :
    PassedExactly alpha env sid node st header ↔
      (deliveredBody header env.recv).length = nextRead ∧
      (result = .video → Measurable node st.trackers (bigBuffer header env.recv nextRead)) := by
  obtain ⟨bitrate, hrun⟩ := handleServerRecv_other alpha sid st hfd h
  have hblock := bigBuffer_eq_iff header nextRead (deliveredBody_isPrefix header env.recv)
  have hpass := passResponse_block alpha env.now sid { node with bitrate := bitrate }
    (bigBuffer header env.recv nextRead) (st.setSession sid { node with bitrate := bitrate })
    h.not_manifest
  have hmeas : Measurable { node with bitrate := bitrate }
      (st.setSession sid { node with bitrate := bitrate }).trackers
      (bigBuffer header env.recv nextRead) ↔
        Measurable node st.trackers (bigBuffer header env.recv nextRead) :=
    ⟨fun ⟨h₁, h₂, h₃⟩ => ⟨h₁, h₂, h₃⟩, fun ⟨h₁, h₂, h₃⟩ => ⟨h₁, h₂, h₃⟩⟩
  rw [hmeas] at hpass
  constructor
  · rintro ⟨st', evs, hcall, hbytes⟩
    obtain ⟨st₁, hout⟩ := (hrun evs).mp ⟨st', hcall⟩
    rw [downstreamBytes_passResponse h.not_manifest hout] at hbytes
    exact ⟨hblock.mp hbytes, hpass.mpr ⟨st₁, evs, hout⟩⟩
  · rintro ⟨hlen, hmeasurable⟩
    obtain ⟨st₁, evs, hout⟩ := hpass.mp hmeasurable
    obtain ⟨st', hcall⟩ := (hrun evs).mpr ⟨st₁, hout⟩
    refine ⟨st', evs, hcall, ?_⟩
    rw [downstreamBytes_passResponse h.not_manifest hout]
    exact hblock.mpr hlen

/-! ## A page of two bytes -/

def pageHeader : Bytes :=
  ascii "HTTP/1.1 200 OK\r\nContent-Length: 2\r\nContent-Type: text/html\r\n\r\n"

/-- The page, with what the server delivers of its body. -/
def pageRecv (body : Bytes) : ServerRecv := ⟨pageHeader, body, ⟨0, 0⟩⟩

def pageSession : Session := ⟨4, some 5, [], none⟩

def pageState : ProxyState := ⟨{3, 4, 5}, {5}, [pageSession], []⟩

theorem connected_page : Connected pageSession 5 := ⟨rfl, by decide, by decide⟩

theorem otherResponse_page {body : Bytes} (hbody : body = ascii "a" ∨ body = ascii "ab") :
    OtherResponse (pageRecv body) pageSession pageHeader 2 .other := by
  have hheader : readHeader pageHeader 0 [] = .ok pageHeader := by decide +kernel
  refine ⟨hheader, by decide +kernel, by decide +kernel, ?_, Or.inr rfl⟩
  rcases hbody with rfl | rfl
  · exact ⟨[], by decide +kernel⟩
  · exact ⟨[], by decide +kernel⟩

/-- Both bytes arrive. -/
theorem passedExactly_page :
    PassedExactly (1 / 2) (pageRecv (ascii "ab")) 0 pageSession pageState pageHeader := by
  refine (passedExactly_iff (1 / 2) 0 pageState connected_page (otherResponse_page (Or.inr rfl))).mpr
    ⟨by decide +kernel, fun h => by cases h⟩

/-- **A short body**: the server closes after one byte, and the client gets two. -/
theorem passed_short_body : ¬ ∀ (alpha : ℚ) (env : ServerRecv) (sid : Nat) (node : Session)
    (st : ProxyState) (fd : Nat) (header : Bytes) (nextRead : Nat) (result : ParseResult),
    Connected node fd → OtherResponse env node header nextRead result →
    PassedExactly alpha env sid node st header := by
  intro hall
  obtain ⟨st', evs, hrun, hbytes⟩ := hall (1 / 2) (pageRecv (ascii "a")) 0 pageSession pageState 5
    pageHeader 2 .other connected_page (otherResponse_page (Or.inl rfl))
  obtain ⟨bitrate, hcall⟩ := handleServerRecv_other (1 / 2) 0 pageState connected_page
    (otherResponse_page (Or.inl rfl))
  obtain ⟨st₁, hpass⟩ := (hcall evs).mp ⟨st', hrun⟩
  rw [downstreamBytes_passResponse (Or.inr rfl) hpass,
    bigBuffer_eq_iff pageHeader 2 (deliveredBody_isPrefix pageHeader _)] at hbytes
  exact absurd hbytes (by decide +kernel)

end VideoCdn
