import VideoCdn.HostName
import VideoCdn.QueryDns
import VideoCdn.Lib.Machine
import Mathlib.Data.List.Rotate

/-!
# Answering requests (`handle_dns_request` of `src/nameserver.c`)

* `handleDnsRequest` — one datagram; `rr_ptr` is an index into the server list, `none` for NULL.
* `cyclic` — a list repeated; any window of its length is a rotation of it (`cyclic_window`).
* `RoundRobin` — the invariant of a run in round-robin mode: `rr_ptr` and the answers sent so far
  are determined by the number of requests accepted.
* `roundRobin_answers` — the run from the start, over any datagrams, for a file of dotted quads.
-/

set_option autoImplicit false

namespace VideoCdn

open CLib

/-- A datagram, its source address as text, and what the stack held in front of the call. -/
structure Request where
  buffer : Bytes
  fromStr : Bytes
  stack : Bytes

/-- `send_error`: the datagram it sends is a piece of its own uninitialised buffer. -/
def sendError (stack : Bytes) : Bytes :=
  let (buffer, len) := genErrorPkt stack
  buffer.take len

/-- The server after `rr_ptr`, from the head of the list at its start and at its end. -/
def nextServer (servList : List Server) (rrPtr : Option Nat) : Option Nat :=
  let head := if servList = [] then none else some 0
  match rrPtr with
  | none => head
  | some i => if i + 1 < servList.length then some (i + 1) else head

/-- `handle_dns_request`: `rr_ptr` afterwards and the datagrams sent. -/
def handleDnsRequest (rrFlag : Bool) (graph : Graph) (servList : List Server) (rrPtr : Option Nat)
    (req : Request) : Checked (Option Nat × List Bytes) :=
  if acceptsName req.buffer = false then .ok (rrPtr, [sendError req.stack])
  else if rrFlag then
    let rrPtr := nextServer servList rrPtr
    match rrPtr.bind (fun i => servList[i]?) with
    | none => .error .nullDeref
    | some p => .ok (rrPtr, [genRespPkt p.hex])
  else do
    let ret ← queryDns graph req.fromStr servList
    return (rrPtr, [genRespPkt ret.hex])

/-! ## Round robin -/

section cyclic
variable {α β : Type}

/-- The first `m` elements of `l`, `l`, `l`, … -/
def cyclic (l : List α) (h : l ≠ []) (m : Nat) : List α :=
  (List.range m).map fun k => l.get ⟨k % l.length, Nat.mod_lt k (List.length_pos_of_ne_nil h)⟩

@[simp] theorem length_cyclic (l : List α) (h : l ≠ []) (m : Nat) : (cyclic l h m).length = m := by
  simp [cyclic]

theorem cyclic_succ (l : List α) (h : l ≠ []) (m : Nat) : cyclic l h (m + 1) =
    cyclic l h m ++ [l.get ⟨m % l.length, Nat.mod_lt m (List.length_pos_of_ne_nil h)⟩] := by
  simp [cyclic, List.range_succ]

theorem getElem?_cyclic {l : List α} {h : l ≠ []} {m k : Nat} (hk : k < m) :
    (cyclic l h m)[k]? = l[k % l.length]? := by
  have hlt := Nat.mod_lt k (List.length_pos_of_ne_nil h)
  simp [cyclic, hk, List.getElem?_eq_getElem hlt]

theorem map_cyclic (f : α → β) (l : List α) (h : l ≠ []) (m : Nat) :
    (cyclic l h m).map f = cyclic (l.map f) (by simpa using h) m := by
  simp [cyclic]

/-- Any `l.length` consecutive elements are a rotation of `l`. -/
theorem cyclic_window {l : List α} {h : l ≠ []} {m j : Nat} (hj : j + l.length ≤ m) :
    ((cyclic l h m).drop j).take l.length = l.rotate j := by
  refine List.ext_getElem? (fun k => ?_)
  by_cases hk : k < l.length
  · rw [List.getElem?_take_of_lt hk, List.getElem?_drop, getElem?_cyclic (by omega),
      List.getElem?_rotate hk, Nat.add_comm]
  · rw [List.getElem?_eq_none, List.getElem?_eq_none]
    · rw [List.length_rotate]; omega
    · rw [List.length_take]; omega

end cyclic

/-- The number of requests accepted. -/
def accepted (reqs : List Request) : Nat := reqs.countP (fun r => acceptsName r.buffer)

/-- The replies to the accepted requests, in order. -/
def answered (reqs : List Request) (sent : List Bytes) : List Bytes :=
  ((reqs.zip sent).filter (fun p => acceptsName p.1.buffer)).map Prod.snd

/-- The invariant of round-robin mode. -/
structure RoundRobin (servers : List Server) (hne : servers ≠ []) (reqs : List Request)
    (sent : List Bytes) (rrPtr : Option Nat) : Prop where
  ptr : rrPtr = if accepted reqs = 0 then none else some ((accepted reqs - 1) % servers.length)
  length : sent.length = reqs.length
  answers : answered reqs sent =
    (cyclic servers hne (accepted reqs)).map (fun s => genRespPkt s.hex)

/-- The pointer moves from the server of request `k - 1` to that of request `k`. -/
theorem nextServer_spec {servers : List Server} (hne : servers ≠ []) (k : Nat) :
    nextServer servers (if k = 0 then none else some ((k - 1) % servers.length)) =
      some (k % servers.length) := by
  have hpos : 0 < servers.length := List.length_pos_iff.mpr hne
  unfold nextServer
  rcases Nat.eq_zero_or_pos k with rfl | hk
  · simp [hne]
  · obtain ⟨j, rfl⟩ : ∃ j, k = j + 1 := ⟨k - 1, by omega⟩
    have hlt := Nat.mod_lt j hpos
    simp only [Nat.add_one_ne_zero, if_false, Nat.add_sub_cancel, if_neg hne]
    rw [Nat.add_mod j 1]
    split
    · rename_i h
      rw [Nat.mod_eq_of_lt (by omega : 1 < servers.length), Nat.mod_eq_of_lt h]
    · rename_i h
      have he : j % servers.length + 1 = servers.length := by omega
      by_cases h1 : servers.length = 1
      · rw [h1, Nat.mod_one]
      · rw [Nat.mod_eq_of_lt (by omega : 1 < servers.length), he, Nat.mod_self]

theorem answered_snoc {reqs : List Request} {sent : List Bytes} (h : sent.length = reqs.length)
    (r : Request) (reply : Bytes) : answered (reqs ++ [r]) (sent ++ [reply]) =
      answered reqs sent ++ (if acceptsName r.buffer = true then [reply] else []) := by
  unfold answered
  rw [List.zip_append h.symm, List.filter_append, List.map_append]
  by_cases hr : acceptsName r.buffer = true <;> simp [hr]

/-- **One datagram** is always answered, and keeps the invariant. -/
theorem RoundRobin.step {servers : List Server} {hne : servers ≠ []} (graph : Graph)
    {reqs : List Request} {sent : List Bytes} {rrPtr : Option Nat}
    (h : RoundRobin servers hne reqs sent rrPtr) (r : Request) : ∃ rrPtr' reply,
      handleDnsRequest true graph servers rrPtr r = .ok (rrPtr', [reply]) ∧
      RoundRobin servers hne (reqs ++ [r]) (sent ++ [reply]) rrPtr' ∧
      (acceptsName r.buffer = false → rrPtr' = rrPtr) := by
  have hlt := Nat.mod_lt (accepted reqs) (List.length_pos_of_ne_nil hne)
  by_cases hacc : acceptsName r.buffer = true
  · have hcount : accepted (reqs ++ [r]) = accepted reqs + 1 := by
      simp [accepted, List.countP_append, hacc]
    have hnext : nextServer servers rrPtr = some (accepted reqs % servers.length) := by
      rw [h.ptr]
      exact nextServer_spec hne _
    refine ⟨some (accepted reqs % servers.length),
      genRespPkt (servers.get ⟨accepted reqs % servers.length, hlt⟩).hex, ?_, ⟨?_, ?_, ?_⟩, ?_⟩
    · unfold handleDnsRequest
      rw [if_neg (by rw [hacc]; simp), if_pos rfl]
      dsimp only
      rw [hnext, Option.bind_some, List.getElem?_eq_getElem hlt]
      rfl
    · rw [hcount, if_neg (Nat.succ_ne_zero _), Nat.add_sub_cancel]
    · simp [h.length]
    · rw [answered_snoc h.length, if_pos hacc, h.answers, hcount, cyclic_succ, List.map_append]
      rfl
    · intro hrej
      rw [hacc] at hrej
      cases hrej
  · have hrej : acceptsName r.buffer = false := by simpa using hacc
    have hcount : accepted (reqs ++ [r]) = accepted reqs := by
      simp [accepted, List.countP_append, hrej]
    refine ⟨rrPtr, sendError r.stack, if_pos hrej, ⟨?_, ?_, ?_⟩, fun _ => rfl⟩
    · rw [hcount]
      exact h.ptr
    · simp [h.length]
    · rw [answered_snoc h.length, if_neg hacc, List.append_nil, hcount]
      exact h.answers

/-- **Every run** in round-robin mode answers every datagram and keeps the invariant. -/
theorem RoundRobin.run {servers : List Server} (hne : servers ≠ []) (graph : Graph)
    (reqs : List Request) : ∃ rrPtr sent,
      Machine.run (handleDnsRequest true graph servers) none reqs = .ok (rrPtr, sent) ∧
      RoundRobin servers hne reqs sent rrPtr := by
  induction reqs using List.reverseRecOn with
  | nil => exact ⟨none, [], rfl, rfl, rfl, rfl⟩
  | append_singleton reqs r ih =>
    obtain ⟨rrPtr, sent, hrun, hinv⟩ := ih
    obtain ⟨rrPtr', reply, hstep, hinv', -⟩ := hinv.step graph r
    exact ⟨rrPtr', sent ++ [reply],
      Machine.run_snoc_eq_ok.mpr ⟨rrPtr, sent, [reply], hrun, hstep, rfl⟩, hinv'⟩

/-- **Round robin over a servers file**: the request accepted after `k` others gets the address of
line `k mod n`, a rejected datagram leaves `rr_ptr` alone, and `n` consecutive accepted requests get
every address once. -/
theorem roundRobin_answers (uninit : Nat → Nat → UInt8) (file : Bytes) (lines : List QuadLine)
    (hlines : lines ≠ []) (hfile : getlines file = lines.map QuadLine.text) (graph : Graph)
    (reqs : List Request) : ∃ servers rrPtr sent,
      getServers uninit (some file) = .ok servers ∧
      Machine.run (handleDnsRequest true graph servers) none reqs = .ok (rrPtr, sent) ∧
      sent.length = reqs.length ∧ (answered reqs sent).length = accepted reqs ∧
      (∀ k reply, (answered reqs sent)[k]? = some reply → ∃ l, lines[k % lines.length]? = some l ∧
        reply = genRespPkt l.address ∧ parseResponse (some reply) = .ok l.address) ∧
      (∀ pre r post, reqs = pre ++ r :: post → acceptsName r.buffer = false → ∃ p s s',
        Machine.run (handleDnsRequest true graph servers) none pre = .ok (p, s) ∧
        Machine.run (handleDnsRequest true graph servers) none (pre ++ [r]) = .ok (p, s')) ∧
      ∀ j, j + lines.length ≤ accepted reqs →
        (((answered reqs sent).drop j).take lines.length).Perm
          (lines.map (fun l => genRespPkt l.address)) := by
  obtain ⟨servers, hservers, -, hhex⟩ := getServers_quadLines uninit lines hfile
  have hlen : servers.length = lines.length := by simpa using congrArg List.length hhex
  have hne : servers ≠ [] := by
    rintro rfl
    exact hlines (List.length_eq_zero_iff.mp hlen.symm)
  obtain ⟨rrPtr, sent, hrun, hinv⟩ := RoundRobin.run hne graph reqs
  have hmap : servers.map (fun s => genRespPkt s.hex) =
      lines.map (fun l => genRespPkt l.address) := by
    have := congrArg (List.map genRespPkt) hhex
    simpa [Function.comp_def] using this
  have hans : answered reqs sent = cyclic (lines.map (fun l => genRespPkt l.address))
      (by simpa using hlines) (accepted reqs) := by
    rw [hinv.answers, map_cyclic]
    simp only [hmap]
  refine ⟨servers, rrPtr, sent, hservers, hrun, hinv.length, by rw [hans, length_cyclic], ?_, ?_, ?_⟩
  · intro k reply hk
    have hlt : k < accepted reqs := by
      have := (List.getElem?_eq_some_iff.mp hk).1
      rwa [hans, length_cyclic] at this
    rw [hans, getElem?_cyclic hlt, List.length_map, List.getElem?_map,
      Option.map_eq_some_iff] at hk
    obtain ⟨l, hl, rfl⟩ := hk
    exact ⟨l, hl, rfl, parseResponse_genRespPkt (by simp [QuadLine.address, l.four])⟩
  · rintro pre r post rfl hrej
    obtain ⟨p, s, hpre, hinvp⟩ := RoundRobin.run hne graph pre
    obtain ⟨p', reply, hstep, -, hkeep⟩ := hinvp.step graph r
    rw [hkeep hrej] at hstep
    exact ⟨p, s, s ++ [reply], hpre, Machine.run_snoc_eq_ok.mpr ⟨p, s, [reply], hpre, hstep, rfl⟩⟩
  · intro j hj
    have hwin := cyclic_window (l := lines.map (fun l => genRespPkt l.address))
      (h := by simpa using hlines) (m := accepted reqs) (j := j) (by simpa using hj)
    rw [List.length_map] at hwin
    rw [hans, hwin]
    exact List.rotate_perm _ _

/-! ## Two servers -/

def octet (d : UInt8) (h : isDigit d = true) (hle : digitsValue [d] ≤ 255) : OctetText :=
  ⟨[d], by simp, by simpa using h, hle⟩

/-- The line `3.0.0.1`, with its newline. -/
def line3 : QuadLine where
  octets := [octet 51 rfl (by decide), octet 48 rfl (by decide), octet 48 rfl (by decide),
    octet 49 rfl (by decide)]
  four := rfl
  eol := [10]
  eol_eq := Or.inl rfl
  fits := by decide

/-- The line `4.0.0.1`, with its newline. -/
def line4 : QuadLine where
  octets := [octet 52 rfl (by decide), octet 48 rfl (by decide), octet 48 rfl (by decide),
    octet 49 rfl (by decide)]
  four := rfl
  eol := [10]
  eol_eq := Or.inl rfl
  fits := by decide

def validRequest : Request := ⟨List.replicate headerSize 0 ++ validDns ++ [0, 1, 0, 1], [], []⟩
def shortRequest : Request := ⟨List.replicate headerSize 0, [], []⟩

/-- Two accepted requests with a rejected one between them get the two addresses. -/
theorem roundRobin_answers_twoServers : ∃ servers rrPtr sent,
    getServers (fun _ _ => 0) (some (ascii "3.0.0.1\n4.0.0.1\n")) = .ok servers ∧
    Machine.run (handleDnsRequest true [] servers) none
      [validRequest, shortRequest, validRequest] = .ok (rrPtr, sent) ∧
    (((answered [validRequest, shortRequest, validRequest] sent).drop 0).take 2).Perm
      [genRespPkt [3, 0, 0, 1], genRespPkt [4, 0, 0, 1]] := by
  obtain ⟨servers, rrPtr, sent, hservers, hrun, -, -, -, -, hwin⟩ :=
    roundRobin_answers (fun _ _ => 0) (ascii "3.0.0.1\n4.0.0.1\n") [line3, line4] (by simp)
      (by decide) [] [validRequest, shortRequest, validRequest]
  exact ⟨servers, rrPtr, sent, hservers, hrun, hwin 0 (by decide)⟩

end VideoCdn
