import VideoCdn.Rejection
import VideoCdn.Lib.DnsGrammar

/-!
# Replies against their requests (`gen_resp_pkt` of `src/mydns.c`)

The reply is a constant packet but for its address: it is a well-formed answer to a request with ID 0
and a question of type and class 0.

* `readMessage_genRespPkt` — the reply under the grammar of DNS messages.
* `AnswersRequest` — a complete response that repeats the ID and the question of the request and
  gives the address.
* `answersRequest_iff` — the requests that are answered so.
* `query_misanswered` — the question of the proxy's own query comes back changed.
-/

set_option autoImplicit false

namespace VideoCdn

open CLib Dns

/-- The name in every question and answer. -/
def videoName : Name := ⟨videoLabels, none⟩

theorem validLabels_video : ValidLabels videoLabels := by unfold ValidLabels; decide

/-- **The reply** reads as a response with one question and one answer, and nothing behind them. -/
theorem readMessage_genRespPkt {hex : Bytes} (h : hex.length = 4) :
    readMessage (genRespPkt hex) = some (⟨0, 0x8400, [⟨videoName, 0, 0⟩],
      [⟨videoName, 1, 1, 0, hex⟩], [], []⟩, []) := by
  have htake : hex.take 4 = hex := List.take_of_length_le (Nat.le_of_eq h)
  have hquestion := readQuestion_encodeName validLabels_video 0 0 0 0
    (validDns ++ ([0, 1, 0, 1, 0, 0, 0, 0, 0, 4] ++ hex))
  have hlength : be16 0 4 = hex.length := by rw [h]; rfl
  have hanswer := readResource_encodeName validLabels_video 0 1 0 1 0 0 0 0 0 4 hlength []
  rw [encodeName_videoLabels] at hquestion hanswer
  rw [List.append_nil] at hanswer
  rw [genRespPkt_eq, htake]
  simp only [List.append_assoc, List.cons_append, List.nil_append] at hquestion ⊢
  unfold readMessage
  simp only [be16, UInt8.toNat_zero, UInt8.reduceToNat, Nat.mul_zero, Nat.zero_add, readMany,
    hquestion, hanswer, Option.bind_some, Option.map_some]
  rfl

/-! ## The request -/

/-- What `handle_dns_request` has tested of the datagram. -/
theorem accepted_split {buffer : Bytes} (h : acceptsName buffer = true) :
    headerSize + NAMESIZE ≤ buffer.length ∧ buffer.drop headerSize = validDns ++ buffer.drop 30 := by
  unfold acceptsName at h
  simp only [Bool.and_eq_true, decide_eq_true_eq, beq_iff_eq] at h
  have hparts := List.take_append_drop NAMESIZE (buffer.drop headerSize)
  rw [h.2, List.drop_drop] at hparts
  exact ⟨h.1, hparts.symm⟩

/-- The question of an accepted request: the name, with the four bytes behind it. -/
theorem firstQuestion_accepted {buffer : Bytes} (h : acceptsName buffer = true) (q : Question) :
    firstQuestion buffer = some q ↔ ∃ t₁ t₀ c₁ c₀,
      (buffer.drop 30).take 4 = [t₁, t₀, c₁, c₀] ∧ q = ⟨videoName, be16 t₁ t₀, be16 c₁ c₀⟩ := by
  have hsplit := (accepted_split h).2
  rw [← encodeName_videoLabels] at hsplit
  unfold firstQuestion
  change (readQuestion (buffer.drop headerSize)).map Prod.fst = some q ↔ _
  rw [hsplit]
  match hrest : buffer.drop 30 with
  | t₁ :: t₀ :: c₁ :: c₀ :: s =>
    rw [readQuestion_encodeName validLabels_video]
    simp only [Option.map_some, Option.some.injEq, List.take_succ_cons, List.take_zero,
      List.cons.injEq, and_true]
    constructor
    · rintro rfl
      exact ⟨t₁, t₀, c₁, c₀, ⟨rfl, rfl, rfl, rfl⟩, rfl⟩
    · rintro ⟨_, _, _, _, ⟨rfl, rfl, rfl, rfl⟩, rfl⟩
      rfl
  | [] | [_] | [_, _] | [_, _, _] =>
    rw [readQuestion_short validLabels_video (by simp)]
    simp

theorem be16_eq_zero {hi lo : UInt8} : be16 hi lo = 0 ↔ hi = 0 ∧ lo = 0 := by
  unfold be16
  rw [← UInt8.toNat_inj, ← UInt8.toNat_inj, UInt8.toNat_zero]
  omega

theorem messageId_eq_zero (buffer : Bytes) :
    messageId buffer = some 0 ↔ buffer.take 2 = [0, 0] := by
  unfold messageId
  split
  · simp [be16_eq_zero]
  · rename_i hne
    match buffer, hne with
    | [], _ => simp
    | [_], _ => simp
    | i₁ :: i₀ :: s, hne => exact absurd rfl (hne i₁ i₀ s)

/-! ## The exact condition -/

/-- The reply is a response without an error that repeats the ID and the question of the request and
answers with the address, and `parse_response` finds the address. -/
structure AnswersRequest (request reply hex : Bytes) : Prop where
  message : ∃ m q ttl, readMessage reply = some (m, []) ∧ m.qr = true ∧ m.rcode = 0 ∧
    messageId request = some m.id ∧ firstQuestion request = some q ∧ m.questions = [q] ∧
    m.answers = [⟨q.name, 1, 1, ttl, hex⟩] ∧ m.authorities = [] ∧ m.additionals = []
  rdlength : hex.length = 4
  address : parseResponse (some reply) = .ok hex

/-- The request has the ID 0, and its question the type 0 and the class 0. -/
structure ZeroRequest (request : Bytes) : Prop where
  id : request.take 2 = [0, 0]
  question : (request.drop 30).take 4 = [0, 0, 0, 0]

/-- **The requests that are answered**: those whose ID, type and class are zero. -/
theorem answersRequest_iff {rrFlag : Bool} {graph : Graph} {servList : List Server}
    {rrPtr : Option Nat} {req : Request} {s : Server} {reply : Bytes}
    (hreq : acceptsName req.buffer = true)
    (h : AnsweredWith rrFlag graph servList rrPtr req s reply) :
    AnswersRequest req.buffer reply s.hex ↔ ZeroRequest req.buffer := by
  rw [h.reply_eq hreq]
  constructor
  · rintro ⟨⟨m, q, ttl, hread, -, -, hid, hquestion, hquestions, -⟩, -, -⟩
    rw [readMessage_genRespPkt s.hex_length, Option.some.injEq, Prod.mk.injEq] at hread
    obtain ⟨rfl, -⟩ := hread
    refine ⟨(messageId_eq_zero req.buffer).mp hid, ?_⟩
    obtain ⟨t₁, t₀, c₁, c₀, htake, rfl⟩ := (firstQuestion_accepted hreq q).mp hquestion
    simp only [List.cons.injEq, Question.mk.injEq, true_and, and_true] at hquestions
    obtain ⟨htype, hclass⟩ := hquestions
    obtain ⟨rfl, rfl⟩ := be16_eq_zero.mp htype.symm
    obtain ⟨rfl, rfl⟩ := be16_eq_zero.mp hclass.symm
    exact htake
  · rintro ⟨hid, hquestion⟩
    refine ⟨⟨_, ⟨videoName, 0, 0⟩, 0, readMessage_genRespPkt s.hex_length, by simp [Message.qr],
      by simp [Message.rcode], (messageId_eq_zero req.buffer).mpr hid, ?_, rfl, rfl, rfl, rfl⟩,
      s.hex_length, parseResponse_genRespPkt s.hex_length⟩
    exact (firstQuestion_accepted hreq _).mpr ⟨0, 0, 0, 0, hquestion, rfl⟩

/-! ## The proxy's query -/

/-- A request with the ID 0, and with the type and the class `t`. -/
def plainRequest (t : UInt8) : Request :=
  ⟨List.replicate 12 0 ++ validDns ++ [0, t, 0, t], [], []⟩

def onlyServer : Server := ⟨ascii "5.0.0.1\n", [5, 0, 0, 1], by decide, by decide, rfl⟩

theorem answeredWith_plain (t : UInt8) (ht : t = 0 ∨ t = 1) :
    AnsweredWith true [] [onlyServer] none (plainRequest t) onlyServer (genRespPkt [5, 0, 0, 1]) := by
  rcases ht with rfl | rfl
  · exact ⟨some 0, by decide +kernel, rfl⟩
  · exact ⟨some 0, by decide +kernel, rfl⟩

/-- A question of type and class 0 is repeated. -/
theorem answersRequest_zero :
    AnswersRequest (plainRequest 0).buffer (genRespPkt [5, 0, 0, 1]) [5, 0, 0, 1] :=
  (answersRequest_iff (by decide) (answeredWith_plain 0 (Or.inl rfl))).mpr ⟨rfl, rfl⟩

/-- **The question of the proxy**, of type and class 1, comes back with type and class 0. -/
theorem query_misanswered : ¬ ∀ (rrFlag : Bool) (graph : Graph) (servList : List Server)
    (rrPtr : Option Nat) (req : Request) (s : Server) (reply : Bytes),
    acceptsName req.buffer = true → AnsweredWith rrFlag graph servList rrPtr req s reply →
    AnswersRequest req.buffer reply s.hex := by
  intro h
  have hgood := h true [] [onlyServer] none (plainRequest 1) onlyServer _ (by decide)
    (answeredWith_plain 1 (Or.inr rfl))
  have hread := readMessage_genRespPkt onlyServer.hex_length
  obtain ⟨⟨m, q, ttl, hmessage, -, -, -, hquestion, hquestions, -⟩, -, -⟩ := hgood
  rw [show genRespPkt [5, 0, 0, 1] = genRespPkt onlyServer.hex from rfl, hread, Option.some.injEq,
    Prod.mk.injEq] at hmessage
  obtain ⟨rfl, -⟩ := hmessage
  have hone : firstQuestion (plainRequest 1).buffer = some ⟨videoName, 1, 1⟩ := by decide
  rw [hone, Option.some.injEq] at hquestion
  subst hquestion
  exact absurd hquestions (by decide)

end VideoCdn
