import VideoCdn.Nameserver

/-!
# The address the proxy resolves (`main` of `src/proxy.c`)

The address goes from a line of the servers file into the four bytes of an entry, into the last four
bytes of the answer packet, into `sin_addr`, and back to text.

* `inetNtop`, `proxyWwwIp` — the conversion in `main`, with its size `sizeof(www_ip)`, the size of a
  pointer.
* `AnsweredWith` — the nameserver answers the query from that entry of its list, in either mode.
* `proxyIpExact_iff` — the round trip gives the text of the line back iff every octet is below 10.
-/

set_option autoImplicit false

namespace VideoCdn

open CLib

/-- An address in dotted-quad notation. -/
def dottedQuad (addr : Bytes) : Bytes := [46].intercalate (addr.map (fun b => decimal b.toNat))

/-- `inet_ntop`: the text and its NUL are written if they fit in `size`, and nothing otherwise. -/
def inetNtop (addr dst : Bytes) (size : Nat) : Bytes :=
  if (dottedQuad addr).length + 1 ≤ size then
    dottedQuad addr ++ 0 :: dst.drop ((dottedQuad addr).length + 1)
  else dst

/-- The host name in `main`, as a string. -/
def videoHostName : CString := ⟨videoHost, by decide⟩

/-- `sizeof(www_ip)`: `www_ip` is a `char *`. -/
def sizeofWwwIp : Nat := 8

/-- The block that `www_ip` points to after `main` has resolved the server.  `uninit` is what
`malloc` left in `sin_addr`. -/
def proxyWwwIp (uninit : Bytes) (sent : Bool) (recv : Option Bytes) : Checked Bytes := do
  let (_, dnsinfo) ← resolve videoHostName sent recv
  return inetNtop (dnsinfo.getD uninit) (List.replicate 50 0) sizeofWwwIp

/-- The nameserver answers the request with the entry `s` of its list. -/
def AnsweredWith (rrFlag : Bool) (graph : Graph) (servList : List Server) (rrPtr : Option Nat)
    (req : Request) (s : Server) (reply : Bytes) : Prop :=
  ∃ rrPtr', handleDnsRequest rrFlag graph servList rrPtr req = .ok (rrPtr', [reply]) ∧
    if rrFlag then rrPtr'.bind (fun i => servList[i]?) = some s
    else queryDns graph req.fromStr servList = .ok s

/-- A line of the servers file: a dotted quad without leading zeros, and the line terminator. -/
structure AddressLine where
  octets : Bytes
  four : octets.length = 4
  eol : Bytes
  eol_eq : eol = [10] ∨ eol = [13, 10] ∨ eol = []

def AddressLine.text (l : AddressLine) : Bytes := dottedQuad l.octets ++ l.eol

/-- Whenever the nameserver answers the proxy's query with the entry of this line, `www_ip` is the
text of the line. -/
def ProxyIpExact (l : AddressLine) : Prop :=
  ∀ hex : Nat → UInt8, ∃ s, newServer hex l.text = .ok s ∧
    ∀ query, genDnsRequest videoHostName = .ok query →
    ∀ rrFlag graph servList rrPtr fromStr stack reply,
      AnsweredWith rrFlag graph servList rrPtr ⟨query, fromStr, stack⟩ s reply →
      ∀ uninit, ∃ wwwIp, proxyWwwIp uninit true (some reply) = .ok wwwIp ∧
        cstr wwwIp = dottedQuad l.octets

/-! ## Sizes of the text -/

theorem length_decimal_octet (b : UInt8) :
    1 ≤ (decimal b.toNat).length ∧ ((decimal b.toNat).length = 1 ↔ b < 10) := by
  have hall : ∀ n < 256, 1 ≤ (decimal n).length ∧ ((decimal n).length = 1 ↔ n < 10) := by
    decide +kernel
  exact hall b.toNat b.toNat_lt

theorem no_nul_dottedQuad (addr : Bytes) : (0 : UInt8) ∉ dottedQuad addr := by
  refine notMem_intercalate (by decide) (fun t ht h0 => ?_)
  obtain ⟨b, -, rfl⟩ := List.mem_map.mp ht
  exact absurd (isDigit_of_mem_decimal h0) (by decide)

/-- Four one-digit octets make the text seven bytes long, anything else makes it longer. -/
theorem length_dottedQuad_lt_iff {addr : Bytes} (h : addr.length = 4) :
    (dottedQuad addr).length < sizeofWwwIp ↔ ∀ b ∈ addr, b < 10 := by
  match addr, h with
  | [a, b, c, d], _ =>
    obtain ⟨ha, ha'⟩ := length_decimal_octet a
    obtain ⟨hb, hb'⟩ := length_decimal_octet b
    obtain ⟨hc, hc'⟩ := length_decimal_octet c
    obtain ⟨hd, hd'⟩ := length_decimal_octet d
    have hlen : (dottedQuad [a, b, c, d]).length = (decimal a.toNat).length +
        (decimal b.toNat).length + (decimal c.toNat).length + (decimal d.toNat).length + 3 := by
      simp [dottedQuad, List.intercalate]
      omega
    simp only [List.forall_mem_cons, List.not_mem_nil, false_imp_iff, implies_true, and_true]
    rw [hlen, ← ha', ← hb', ← hc', ← hd']
    unfold sizeofWwwIp
    omega

/-! ## The five representations -/

theorem AnsweredWith.reply_eq {rrFlag : Bool} {graph : Graph} {servList : List Server}
    {rrPtr : Option Nat} {req : Request} {s : Server} {reply : Bytes}
    (hreq : acceptsName req.buffer = true)
    (h : AnsweredWith rrFlag graph servList rrPtr req s reply) : reply = genRespPkt s.hex := by
  obtain ⟨rrPtr', hrun, hs⟩ := h
  unfold handleDnsRequest at hrun
  rw [if_neg (by rw [hreq]; simp)] at hrun
  cases rrFlag with
  | true =>
    rw [if_pos rfl] at hrun hs
    dsimp only at hrun
    split at hrun
    · cases hrun
    · rename_i p hp
      cases hrun
      rw [hp, Option.some.injEq] at hs
      rw [hs]
  | false =>
    rw [if_neg (by simp)] at hrun hs
    rw [hs, ok_bind] at hrun
    cases hrun
    rfl

/-- The one-entry list is answered from, so the condition on the reply can be met. -/
theorem answeredWith_self {req : Request} (hreq : acceptsName req.buffer = true) (s : Server) :
    AnsweredWith true [] [s] none req s (genRespPkt s.hex) := by
  refine ⟨some 0, ?_, rfl⟩
  unfold handleDnsRequest
  rw [if_neg (by rw [hreq]; simp), if_pos rfl]
  rfl

/-- The query the proxy sends is one that the nameserver accepts. -/
theorem exists_query : ∃ query, genDnsRequest videoHostName = .ok query ∧
    acceptsName query = true :=
  ⟨[0, 0, 0, 0, 0, 1, 0, 0, 0, 0, 0, 0] ++ validDns ++ [0, 1] ++ [0, 1], by decide +kernel,
    by decide +kernel⟩

/-- `www_ip` is the address of the entry as text if that fits in a pointer, and empty otherwise. -/
theorem proxyWwwIp_genRespPkt (uninit : Bytes) (s : Server) : ∃ wwwIp,
    proxyWwwIp uninit true (some (genRespPkt s.hex)) = .ok wwwIp ∧
    cstr wwwIp = if (dottedQuad s.hex).length < sizeofWwwIp then dottedQuad s.hex else [] := by
  obtain ⟨query, hquery, -⟩ := exists_query
  refine ⟨inetNtop s.hex (List.replicate 50 0) sizeofWwwIp, ?_, ?_⟩
  · unfold proxyWwwIp resolve
    rw [hquery, ok_bind, if_pos rfl, parseResponse_genRespPkt s.hex_length, ok_bind, pure_eq_ok,
      ok_bind]
    rfl
  · unfold inetNtop
    by_cases h : (dottedQuad s.hex).length < sizeofWwwIp
    · rw [if_pos h, if_pos (Nat.succ_le_of_lt h)]
      unfold cstr
      rw [List.takeWhile_append_of_pos]
      · simp
      · intro c hc
        simp only [bne_iff_ne, ne_eq]
        rintro rfl
        exact no_nul_dottedQuad s.hex hc
    · rw [if_neg h, if_neg (fun hle => h (Nat.lt_of_succ_le hle))]
      rfl

theorem octetText_decimal (b : UInt8) : ∃ o : OctetText, o.text = decimal b.toNat ∧ o.value = b := by
  have hv : digitsValue (decimal b.toNat) = b.toNat := by
    have := digitsValue_decimal_append b.toNat (s := []) (by simp)
    rwa [List.append_nil] at this
  have hlt := b.toNat_lt
  refine ⟨⟨decimal b.toNat, decimal_ne_nil _, fun c hc => isDigit_of_mem_decimal hc,
    by omega⟩, rfl, ?_⟩
  unfold OctetText.value
  rw [hv, UInt8.ofNat_toNat]

/-- A line that fits in `sname` is one that `get_servers` reads as it should. -/
theorem exists_quadLine {l : AddressLine} (hfit : l.text.length ≤ 14) :
    ∃ q : QuadLine, q.text = l.text ∧ q.address = l.octets := by
  obtain ⟨octets, four, eol, heol⟩ := l
  match octets, four with
  | [a, b, c, d], _ =>
    obtain ⟨oa, hat, hav⟩ := octetText_decimal a
    obtain ⟨ob, hbt, hbv⟩ := octetText_decimal b
    obtain ⟨oc, hct, hcv⟩ := octetText_decimal c
    obtain ⟨od, hdt, hdv⟩ := octetText_decimal d
    have htext : [46].intercalate ([oa, ob, oc, od].map OctetText.text) ++ eol =
        dottedQuad [a, b, c, d] ++ eol := by
      simp only [dottedQuad, List.map_cons, List.map_nil, hat, hbt, hct, hdt]
    refine ⟨⟨[oa, ob, oc, od], rfl, eol, heol, ?_⟩, htext, ?_⟩
    · rw [htext]
      exact hfit
    · simp [QuadLine.address, hav, hbv, hcv, hdv]

/-- A text that does not fit in a pointer never comes back. -/
theorem not_proxyIpExact {l : AddressLine} (h : sizeofWwwIp ≤ (dottedQuad l.octets).length) :
    ¬ ProxyIpExact l := by
  intro hexact
  obtain ⟨s, -, hall⟩ := hexact (fun _ => 0)
  obtain ⟨query, hquery, hacc⟩ := exists_query
  obtain ⟨wwwIp, hrun, htext⟩ := hall query hquery true [] [s] none [] [] _
    (answeredWith_self hacc s) []
  obtain ⟨wwwIp', hrun', htext'⟩ := proxyWwwIp_genRespPkt [] s
  rw [hrun, Except.ok.injEq] at hrun'
  rw [← hrun', htext] at htext'
  have hlen := congrArg List.length htext'
  have hpos : 0 < sizeofWwwIp := by decide
  split at hlen
  · omega
  · rw [List.length_nil] at hlen
    omega

/-- **The round trip** gives the text of the line back iff its four octets are single digits. -/
theorem proxyIpExact_iff (l : AddressLine) : ProxyIpExact l ↔ ∀ b ∈ l.octets, b < 10 := by
  rw [← length_dottedQuad_lt_iff l.four]
  constructor
  · intro hexact
    by_contra hge
    exact not_proxyIpExact (Nat.not_lt.mp hge) hexact
  · intro hlt hex
    have heol : l.eol.length ≤ 2 := by
      rcases l.eol_eq with h | h | h <;> rw [h] <;> decide
    have hfit : l.text.length ≤ 14 := by
      unfold AddressLine.text
      unfold sizeofWwwIp at hlt
      rw [List.length_append]
      omega
    obtain ⟨q, hqtext, hqaddr⟩ := exists_quadLine hfit
    obtain ⟨s, hs, -, hhex⟩ := newServer_quadLine q hex
    refine ⟨s, by rw [← hqtext, hs], ?_⟩
    intro query hquery rrFlag graph servList rrPtr fromStr stack reply hans uninit
    obtain ⟨query', hquery', hacc⟩ := exists_query
    rw [hquery, Except.ok.injEq] at hquery'
    subst hquery'
    rw [hans.reply_eq hacc]
    obtain ⟨wwwIp, hrun, htext⟩ := proxyWwwIp_genRespPkt uninit s
    refine ⟨wwwIp, hrun, ?_⟩
    rw [htext, hhex, hqaddr, if_pos hlt]

/-- The line `10.0.0.1`. -/
def tenLine : AddressLine := ⟨[10, 0, 0, 1], rfl, [], Or.inr (Or.inr rfl)⟩

/-- **Eight characters** are too many for `inet_ntop` with the size of a pointer. -/
theorem proxyIp_tenLine : ¬ ∀ l : AddressLine, ProxyIpExact l :=
  fun h => not_proxyIpExact (by decide +kernel) (h tenLine)

end VideoCdn
