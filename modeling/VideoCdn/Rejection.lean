import VideoCdn.Resolve
import VideoCdn.Lib.DnsMessage

/-!
# Rejected requests (`gen_error_pkt`, `parse_response` and `resolve` of `src/mydns.c`)

`gen_error_pkt` builds its packet in a block of its own and leaves the caller's buffer alone;
`parse_response` copies the last four bytes of whatever was received.

* `RejectionSent` — a rejected request is answered with RCODE 3; `rejectionSent_iff`: only if the
  uninitialised buffer of `send_error` happens to say so.
* `ResolvesExactly` — `resolve` reports an error unless it got an answer; `resolvesExactly_iff`: it
  is right only about answers.
* `carriesA_genRespPkt` — the answers of the nameserver are responses with an address.
-/

set_option autoImplicit false

namespace VideoCdn

open CLib Dns

/-- RCODE 3: the name does not exist. -/
def NXDOMAIN : Nat := 3

/-- If the request is rejected, then what is sent back is an error packet with RCODE 3. -/
def RejectionSent (rrFlag : Bool) (graph : Graph) (servList : List Server) (rrPtr : Option Nat)
    (req : Request) : Prop :=
  acceptsName req.buffer = false → ∃ rrPtr' reply,
    handleDnsRequest rrFlag graph servList rrPtr req = .ok (rrPtr', [reply]) ∧
    HasRcode NXDOMAIN reply

/-- A datagram was received, and it is a response with an address. -/
def GotAddress (recv : Option Bytes) : Prop := ∃ d, recv = some d ∧ CarriesA d

/-- For this outcome of `recvfrom`, `resolve` returns 0 with an address if a response with an address
was received, and -1 otherwise. -/
structure ResolvesExactly (node : CString) (recv : Option Bytes) : Prop where
  address : GotAddress recv → ∃ ip, resolve node true recv = .ok (0, some ip)
  error : ¬ GotAddress recv → resolve node true recv = .ok (-1, none)

/-- The error packet is what the stack held. -/
theorem rejectionSent_iff (rrFlag : Bool) (graph : Graph) (servList : List Server)
    (rrPtr : Option Nat) (req : Request) :
    RejectionSent rrFlag graph servList rrPtr req ↔
      acceptsName req.buffer = true ∨ HasRcode NXDOMAIN (req.stack.take packetSize) := by
  unfold RejectionSent handleDnsRequest
  cases hacc : acceptsName req.buffer with
  | true => simp
  | false => simp [sendError, genErrorPkt]

theorem length_of_carriesA {d : Bytes} (h : CarriesA d) : 12 ≤ d.length := h.2.1.1

/-- `parse_response` takes any datagram of four bytes for an answer. -/
theorem resolve_eq_ok {node : CString} {recv : Option Bytes} {res : Int × Option Bytes} :
    resolve node true recv = .ok res ↔ DotsFit node.bytes ∧
      ∃ d, recv = some d ∧ 4 ≤ d.length ∧ res = (0, some (d.drop (d.length - 4))) := by
  have hreq : (∃ request, genDnsRequest node = .ok request) ↔ DotsFit node.bytes := by
    rw [← transferDnsName_ok_iff]
    constructor
    · rintro ⟨request, hreq⟩
      obtain ⟨b, hb, -⟩ := genDnsRequest_eq_ok.mp hreq
      exact ⟨b, hb⟩
    · rintro ⟨b, hb⟩
      exact ⟨_, genDnsRequest_eq_ok.mpr ⟨b, hb, rfl⟩⟩
  rw [← hreq]
  unfold resolve
  simp only [if_true, bind_eq_ok, pure_eq_ok, Except.ok.injEq]
  cases recv with
  | none => simp [parseResponse]
  | some d =>
    simp only [parseResponse, inBounds_bind_eq_ok, pure_eq_ok, Except.ok.injEq, Option.some.injEq,
      exists_eq_left']
    constructor
    · rintro ⟨request, hrun, ip, ⟨hlen, rfl⟩, rfl⟩
      exact ⟨⟨request, hrun⟩, hlen, rfl⟩
    · rintro ⟨⟨request, hrun⟩, hlen, rfl⟩
      exact ⟨request, hrun, _, ⟨hlen, rfl⟩, rfl⟩

theorem resolvesExactly_iff (node : CString) (recv : Option Bytes) :
    ResolvesExactly node recv ↔ DotsFit node.bytes ∧ GotAddress recv := by
  constructor
  · rintro ⟨haddress, herror⟩
    by_cases hgot : GotAddress recv
    · obtain ⟨ip, hrun⟩ := haddress hgot
      exact ⟨(resolve_eq_ok.mp hrun).1, hgot⟩
    · -- `resolve` has no way to return -1 once it has sent its request
      obtain ⟨-, d, -, -, hres⟩ := resolve_eq_ok.mp (herror hgot)
      cases hres
  · rintro ⟨hfit, d, hd, hcarries⟩
    have hlen := length_of_carriesA hcarries
    exact ⟨fun _ => ⟨_, resolve_eq_ok.mpr ⟨hfit, d, hd, by omega, rfl⟩⟩,
      fun hno => absurd ⟨d, hd, hcarries⟩ hno⟩

/-- **What becomes of a rejection**: it is sent only if the stack holds it already, and whatever is
received is taken for an answer. -/
theorem rejection_reaches_caller_iff (rrFlag : Bool) (graph : Graph) (servList : List Server)
    (rrPtr : Option Nat) (req : Request) (node : CString) (recv : Option Bytes) :
    (RejectionSent rrFlag graph servList rrPtr req ↔
      acceptsName req.buffer = true ∨ HasRcode NXDOMAIN (req.stack.take packetSize)) ∧
    (ResolvesExactly node recv ↔ DotsFit node.bytes ∧ GotAddress recv) :=
  ⟨rejectionSent_iff rrFlag graph servList rrPtr req, resolvesExactly_iff node recv⟩

/-! ## Accepted requests -/

def videoLabels : List Bytes := [ascii "video", ascii "cs", ascii "cmu", ascii "edu"]

theorem encodeName_videoLabels : encodeName videoLabels = validDns := by decide

theorem answers_genRespPkt {hex : Bytes} (h : hex.length = 4) :
    answers (genRespPkt hex) = some [⟨1, 1, hex⟩] := by
  have hlabels : ∀ label ∈ videoLabels, label ≠ [] ∧ label.length < 64 := by decide
  have htake : hex.take 4 = hex := List.take_of_length_le (Nat.le_of_eq h)
  have hquestion := skipQuestions_one hlabels (f := [0, 0, 0, 0]) rfl
    (validDns ++ ([0, 1, 0, 1, 0, 0, 0, 0, 0, 4] ++ hex))
  have hname := skipName_encodeName hlabels ([0, 1, 0, 1, 0, 0, 0, 0, 0, 4] ++ hex)
  rw [encodeName_videoLabels] at hquestion hname
  have hheader : ∀ s, answers ([0, 0, 0x84, 0, 0, 1, 0, 1, 0, 0, 0, 0] ++ s) =
      (skipQuestions 1 s).bind (readRecords 1) := fun s => answers_header rfl rfl s
  rw [genRespPkt_eq, htake]
  simp only [List.append_assoc]
  rw [hheader, hquestion, Option.bind_some]
  unfold readRecords readRecord
  rw [hname]
  simp [be16, h, readRecords]

/-- **An answer of the nameserver** is a response with an address. -/
theorem carriesA_genRespPkt {hex : Bytes} (h : hex.length = 4) : CarriesA (genRespPkt hex) := by
  refine ⟨⟨0x84, by rw [genRespPkt_eq]; rfl, by decide⟩,
    ⟨?_, 0, by rw [genRespPkt_eq]; rfl, rfl⟩, _, answers_genRespPkt h, _, List.mem_singleton_self _, ?_⟩
  · rw [genRespPkt_eq]
    simp
  · simp [Record.isA, h]

/-- `resolve` returns the address of an accepted request. -/
theorem resolvesExactly_answered {rrFlag : Bool} {graph : Graph} {servList : List Server}
    {rrPtr : Option Nat} {req : Request} {s : Server} {reply : Bytes}
    (hreq : acceptsName req.buffer = true)
    (h : AnsweredWith rrFlag graph servList rrPtr req s reply) :
    ResolvesExactly videoHostName (some reply) := by
  refine (resolvesExactly_iff _ _).mpr ⟨?_, reply, rfl, ?_⟩
  · obtain ⟨query, hquery, -⟩ := exists_query
    obtain ⟨b, hb, -⟩ := genDnsRequest_eq_ok.mp hquery
    exact (transferDnsName_ok_iff _).mp ⟨b, hb⟩
  · rw [h.reply_eq hreq]
    exact carriesA_genRespPkt s.hex_length

/-- **A rejection becomes an address**: on a cleared stack the reply to a datagram that is a header
only says that there is no error, and `resolve` returns the address 0.0.0.0 for it. -/
theorem rejection_resolved : ¬ ((∀ rrFlag graph servList rrPtr req,
      RejectionSent rrFlag graph servList rrPtr req) ∧
    ∀ node recv, ResolvesExactly node recv) := by
  rintro ⟨hsent, hresolves⟩
  obtain ⟨rrPtr', reply, hrun, -, flags, hflags, hcode⟩ :=
    hsent true [] [] none ⟨List.replicate 12 0, [], List.replicate 8192 0⟩ rfl
  have hreply : reply = List.replicate 28 0 := by
    have : handleDnsRequest true [] [] none ⟨List.replicate 12 0, [], List.replicate 8192 0⟩ =
        .ok (none, [List.replicate 28 0]) := by decide +kernel
    rw [this] at hrun
    cases hrun
    rfl
  rw [hreply] at hflags
  cases hflags
  exact absurd hcode (by decide)

end VideoCdn
