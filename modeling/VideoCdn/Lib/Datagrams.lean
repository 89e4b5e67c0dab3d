import VideoCdn.Lib.Machine
import Mathlib.Logic.Function.Basic
import Mathlib.Logic.Relation

/-!
# A server that is asked by datagrams

A server with a loop of its own, and clients that send one request each and wait for one datagram.
Between them is a network that may lose datagrams, deliver them twice and in any order.  Hosts that
are no clients send the server and the clients whatever they like, under addresses of their own.

* `Service` — the turn of the server's loop, what the clients send and what they make of a reply.
* `Network`, `Service.Step` — the parties with the datagrams on their way, and what can happen next,
  the end of the server in a fault included; `Service.Reachable` is any interleaving of such steps.
* `Service.AnsweredIn` — a datagram that the server sends to a host in some turn of a run.
* `Reachable.sound` — **provenance**: in every reachable state the server is where a run over what it
  has received has brought it, it has stopped only in a turn that faults, and what a client has got
  from the server was sent to it in a turn of that run.
* `exists_done` — **progress**: while the server runs, a client that has not asked yet can still get
  its reply.
* `exists_stopped` — the limit of that: a stranger's datagram on which the server faults can reach it.
-/

set_option autoImplicit false

namespace Datagrams

open CLib

variable {A D ι σ R : Type}

/-- A client that has not asked yet, has asked, or has made `result` of what it received, from the server
or from somebody else. -/
inductive Phase (R : Type) where
  | idle
  | waiting
  | done (fromServer : Bool) (result : R)

/-- A datagram on its way to a client. -/
structure Reply (A D : Type) where
  fromServer : Bool
  dest : A
  datagram : D

/-- The server takes the inputs `ι`; such an input has a source and the datagram received. -/
structure Service (A D ι σ R : Type) where
  turn : σ → ι → Checked (σ × List D)
  start : σ
  source : ι → A
  content : ι → D
  IsClient : A → Prop
  request : D
  read : D → R

/-- The datagrams on their way to the server carry the address of the host that they come from.  What
the server has received and sent so far is kept as well, and the input on which it stopped. -/
structure Network (A D ι σ R : Type) where
  server : σ
  stopped : Option ι
  requests : List (A × D)
  replies : List (Reply A D)
  clients : A → Phase R
  received : List ι
  sent : List D

namespace Service

variable (S : Service A D ι σ R)

def init : Network A D ι σ R := ⟨S.start, none, [], [], fun _ => .idle, [], []⟩

inductive Step [DecidableEq A] (net : Network A D ι σ R) : Network A D ι σ R → Prop where
  | ask (c : A) : S.IsClient c → net.clients c = .idle → Step net
      { net with
        requests := (c, S.request) :: net.requests
        clients := Function.update net.clients c .waiting }
  | stranger (a : A) (d : D) : ¬ S.IsClient a →
      Step net { net with requests := (a, d) :: net.requests }
  /-- Somebody who is not the server sends a client a datagram. -/
  | forge (c : A) (d : D) : Step net { net with replies := ⟨false, c, d⟩ :: net.replies }
  /-- What is on its way is lost, doubled or overtaken. -/
  | travel (requests : List (A × D)) (replies : List (Reply A D)) : requests ⊆ net.requests →
      replies ⊆ net.replies → Step net { net with requests := requests, replies := replies }
  | serve (i : ι) (server : σ) (out : List D) : net.stopped = none →
      (S.source i, S.content i) ∈ net.requests → S.turn net.server i = .ok (server, out) → Step net
      { net with
        server := server
        replies := out.map (⟨true, S.source i, ·⟩) ++ net.replies
        received := net.received ++ [i]
        sent := net.sent ++ out }
  /-- A fault of the server is the end of it: it takes no turn from there on. -/
  | stop (i : ι) (e : Fault) : net.stopped = none → (S.source i, S.content i) ∈ net.requests →
      S.turn net.server i = .error e → Step net { net with stopped := some i }
  | answer (c : A) (r : Reply A D) : net.clients c = .waiting → r ∈ net.replies → r.dest = c →
      Step net
        { net with clients := Function.update net.clients c (.done r.fromServer (S.read r.datagram)) }

/-- Any interleaving of steps. -/
def Reachable [DecidableEq A] : Network A D ι σ R → Prop := Relation.ReflTransGen S.Step S.init

/-- In some turn of the run over `received`, the server receives a datagram from `a` and sends `d`. -/
def AnsweredIn (received : List ι) (a : A) (d : D) : Prop :=
  ∃ pre i post s es s' out, received = pre ++ i :: post ∧ S.source i = a ∧
    Machine.run S.turn S.start pre = .ok (s, es) ∧ S.turn s i = .ok (s', out) ∧ d ∈ out

/-- Where everything comes from. -/
structure Sound (net : Network A D ι σ R) : Prop where
  server : Machine.run S.turn S.start net.received = .ok (net.server, net.sent)
  requests : ∀ p ∈ net.requests, S.IsClient p.1 → p.2 = S.request
  received : ∀ i ∈ net.received, S.IsClient (S.source i) → S.content i = S.request
  stopped : ∀ i, net.stopped = some i → (S.IsClient (S.source i) → S.content i = S.request) ∧
    ∃ e, S.turn net.server i = .error e
  replies : ∀ r ∈ net.replies, r.fromServer = true → S.AnsweredIn net.received r.dest r.datagram
  asked : ∀ c, net.clients c ≠ .idle → S.IsClient c
  done : ∀ c result, net.clients c = .done true result →
    ∃ d, result = S.read d ∧ S.AnsweredIn net.received c d

variable {S}

/-- What was sent once has been sent for good. -/
theorem AnsweredIn.append {received : List ι} {a : A} {d : D} (h : S.AnsweredIn received a d)
    (more : List ι) : S.AnsweredIn (received ++ more) a d := by
  obtain ⟨pre, i, post, s, es, s', out, rfl, hsource, hrun, hturn, hd⟩ := h
  exact ⟨pre, i, post ++ more, s, es, s', out, by simp, hsource, hrun, hturn, hd⟩

theorem Sound.init : S.Sound S.init where
  server := rfl
  requests p hp := by cases hp
  received i hi := by cases hi
  stopped i hi := by cases hi
  replies r hr := by cases hr
  asked c hc := absurd rfl hc
  done c result h := by cases h

section Steps
variable {net net' : Network A D ι σ R}

theorem Sound.ask [DecidableEq A] (h : S.Sound net) {c : A} (hclient : S.IsClient c) : S.Sound
    { net with
      requests := (c, S.request) :: net.requests
      clients := Function.update net.clients c .waiting } where
  server := h.server
  requests p hp hp' := by
    rcases List.mem_cons.mp hp with rfl | hp
    · rfl
    · exact h.requests p hp hp'
  received := h.received
  stopped := h.stopped
  replies := h.replies
  asked c' hc' := by
    by_cases heq : c' = c
    · exact heq ▸ hclient
    · apply h.asked c'
      simpa [Function.update_of_ne heq] using hc'
  done c' result hc' := by
    by_cases heq : c' = c
    · subst heq
      simp at hc'
    · apply h.done c' result
      simpa [Function.update_of_ne heq] using hc'

theorem Sound.serve (h : S.Sound net) {i : ι} {server : σ} {out : List D}
    (hruns : net.stopped = none) (hmem : (S.source i, S.content i) ∈ net.requests)
    (hturn : S.turn net.server i = .ok (server, out)) : S.Sound
    { net with
      server := server
      replies := out.map (⟨true, S.source i, ·⟩) ++ net.replies
      received := net.received ++ [i]
      sent := net.sent ++ out } where
  server := Machine.run_snoc_eq_ok.mpr ⟨net.server, net.sent, out, h.server, hturn, rfl⟩
  requests := h.requests
  received j hj hclient := by
    rcases List.mem_append.mp hj with hj | hj
    · exact h.received j hj hclient
    · rw [List.mem_singleton.mp hj] at hclient ⊢
      exact h.requests _ hmem hclient
  stopped j hj := by
    replace hj : net.stopped = some j := hj
    rw [hruns] at hj
    cases hj
  replies r hr hfrom := by
    rcases List.mem_append.mp hr with hr | hr
    · obtain ⟨d, hd, rfl⟩ := List.mem_map.mp hr
      exact ⟨net.received, i, [], net.server, net.sent, server, out, rfl, rfl, h.server, hturn, hd⟩
    · exact (h.replies r hr hfrom).append [i]
  asked := h.asked
  done c result hc := by
    obtain ⟨d, hd, hans⟩ := h.done c result hc
    exact ⟨d, hd, hans.append [i]⟩

theorem Sound.answer [DecidableEq A] (h : S.Sound net) {c : A} {r : Reply A D}
    (hwait : net.clients c = .waiting) (hmem : r ∈ net.replies) (hdest : r.dest = c) : S.Sound
    { net with
      clients := Function.update net.clients c (.done r.fromServer (S.read r.datagram)) } where
  server := h.server
  requests := h.requests
  received := h.received
  stopped := h.stopped
  replies := h.replies
  asked c' hc' := by
    by_cases heq : c' = c
    · apply h.asked c'
      rw [heq, hwait]
      simp
    · apply h.asked c'
      simpa [Function.update_of_ne heq] using hc'
  done c' result hc' := by
    by_cases heq : c' = c
    · subst heq
      replace hc' : Function.update net.clients c' (.done r.fromServer (S.read r.datagram)) c' =
        .done true result := hc'
      rw [Function.update_self, Phase.done.injEq] at hc'
      exact ⟨r.datagram, hc'.2.symm, hdest ▸ h.replies r hmem hc'.1⟩
    · apply h.done c' result
      simpa [Function.update_of_ne heq] using hc'

/-- **Step lemma.** -/
theorem Sound.step [DecidableEq A] (h : S.Sound net) (hstep : S.Step net net') : S.Sound net' := by
  cases hstep with
  | ask c hclient _ => exact h.ask hclient
  | stranger a d ha =>
    refine ⟨h.server, fun p hp hclient => ?_, h.received, h.stopped, h.replies, h.asked, h.done⟩
    rcases List.mem_cons.mp hp with rfl | hp
    · exact absurd hclient ha
    · exact h.requests p hp hclient
  | forge c d =>
    refine ⟨h.server, h.requests, h.received, h.stopped, fun r hr hfrom => ?_, h.asked, h.done⟩
    rcases List.mem_cons.mp hr with rfl | hr
    · cases hfrom
    · exact h.replies r hr hfrom
  | travel requests replies hreq hrep =>
    exact ⟨h.server, fun p hp => h.requests p (hreq hp), h.received, h.stopped,
      fun r hr => h.replies r (hrep hr), h.asked, h.done⟩
  | serve i server out hruns hmem hturn => exact h.serve hruns hmem hturn
  | stop i e hruns hmem hturn =>
    refine ⟨h.server, h.requests, h.received, fun j hj => ?_, h.replies, h.asked, h.done⟩
    cases hj
    exact ⟨h.requests _ hmem, e, hturn⟩
  | answer c r hwait hmem hdest => exact h.answer hwait hmem hdest

/-- **Provenance**, whatever the network and the strangers do. -/
theorem Reachable.sound [DecidableEq A] (h : S.Reachable net) : S.Sound net := by
  induction h with
  | refl => exact Sound.init
  | tail _ hstep ih => exact ih.step hstep

/-- **Progress**: a client that has not asked yet gets a reply, if the server runs and takes its
request. -/
theorem exists_done [DecidableEq A] (hruns : net.stopped = none) {c : A} (hclient : S.IsClient c)
    (hidle : net.clients c = .idle) {i : ι} (hsource : S.source i = c)
    (hcontent : S.content i = S.request) {server : σ} {d : D} {out : List D}
    (hturn : S.turn net.server i = .ok (server, d :: out)) :
    ∃ net', Relation.ReflTransGen S.Step net net' ∧ net'.clients c = .done true (S.read d) := by
  refine ⟨_, ((Relation.ReflTransGen.single (Step.ask c hclient hidle)).tail
    (Step.serve i server (d :: out) hruns ?_ hturn)).tail
    (Step.answer c ⟨true, c, d⟩ (Function.update_self c _ _) ?_ rfl), Function.update_self c _ _⟩
  · rw [hsource, hcontent]
    exact List.mem_cons_self
  · rw [hsource]
    exact List.mem_cons_self

/-- A running server can be stopped by a stranger, if there is an input on which it faults. -/
theorem exists_stopped [DecidableEq A] (hruns : net.stopped = none) {i : ι}
    (hstranger : ¬ S.IsClient (S.source i)) {e : Fault} (hturn : S.turn net.server i = .error e) :
    ∃ net', Relation.ReflTransGen S.Step net net' ∧ net'.stopped = some i :=
  ⟨_, (Relation.ReflTransGen.single (Step.stranger _ (S.content i) hstranger)).tail
    (Step.stop i e hruns List.mem_cons_self hturn), rfl⟩

end Steps

end Service

end Datagrams
