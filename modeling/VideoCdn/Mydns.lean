import VideoCdn.Lib.CString

/-!
# DNS packets (`src/mydns.c`)

Byte-level model of the packets that the proxy and the nameserver exchange.

* `DnsHeader`, `DnsQuestion`, `DnsAnswer` — the C structs; `bytes` gives their memory on a
  little-endian machine, where `htons` swaps the two bytes of a `uint16_t`.
* `transferDnsName` — the loop of `transfer_dns_name` with its cursors; it flushes a label at each
  dot and, whatever the name, once more at index 15.
* `genDnsRequest`, `genRespPkt`, `genErrorPkt`, `parseResponse`, `resolve`.

Output to the terminal and to the log is not modelled.
-/

set_option autoImplicit false

namespace VideoCdn

open CLib

def NAMESIZE : Nat := 18

/-- The only name the nameserver knows: `5 video 2 cs 3 cmu 3 edu 0`. -/
def validDns : Bytes :=
  [0x05, 0x76, 0x69, 0x64, 0x65, 0x6f,
   0x02, 0x63, 0x73,
   0x03, 0x63, 0x6d, 0x75,
   0x03, 0x65, 0x64, 0x75, 0x00]

/-! ## Structs -/

def htons (v : UInt16) : UInt16 := (v <<< 8) ||| (v >>> 8)

/-- Memory of a `uint16_t`. -/
def bytes16 (v : UInt16) : Bytes := [v.toUInt8, (v >>> 8).toUInt8]

/-- Memory of a `uint32_t`. -/
def bytes32 (v : UInt32) : Bytes :=
  [v.toUInt8, (v >>> 8).toUInt8, (v >>> 16).toUInt8, (v >>> 24).toUInt8]

structure DnsHeader where
  id : UInt16
  fields : UInt16
  qdcount : UInt16
  ancount : UInt16
  nscount : UInt16
  arcount : UInt16
  deriving DecidableEq, Repr

structure DnsQuestion where
  qtype : UInt16
  qclass : UInt16
  deriving DecidableEq, Repr

structure DnsAnswer where
  type : UInt16
  aclass : UInt16
  ttl : UInt32
  rdlength : UInt16
  deriving DecidableEq, Repr

structure DnsPacket where
  header : DnsHeader
  question : DnsQuestion
  answer : DnsAnswer
  deriving DecidableEq, Repr

def DnsHeader.bytes (h : DnsHeader) : Bytes :=
  bytes16 h.id ++ bytes16 h.fields ++ bytes16 h.qdcount ++ bytes16 h.ancount ++
    bytes16 h.nscount ++ bytes16 h.arcount

def DnsQuestion.bytes (q : DnsQuestion) : Bytes := bytes16 q.qtype ++ bytes16 q.qclass

/-- The struct ends with two bytes of padding after `rdlength`. -/
def DnsAnswer.bytes (a : DnsAnswer) : Bytes :=
  bytes16 a.type ++ bytes16 a.aclass ++ bytes32 a.ttl ++ bytes16 a.rdlength ++ [0, 0]

/-- `sizeof(dns_header_t)`. -/
def headerSize : Nat := 12

/-- `sizeof(dns_packet_t)`. -/
def packetSize : Nat := 28

def initDnsPacket : DnsPacket where
  header := ⟨0, 0, 0x01, 0, 0, 0⟩
  question := ⟨0x01, 0x01⟩
  answer := ⟨0, 0, 0, 0⟩

/-! ## Names -/

/-- The locals of `transfer_dns_name`: the output array and the offsets of its cursors. -/
structure NameCursor where
  buffer : Bytes
  tmp1 : Nat
  tmp2 : Nat
  sublen : Nat
  deriving DecidableEq, Repr

/-- The flush that the loop makes at index 15. -/
def flushAt15 (dns : Bytes) (i : Nat) (c : NameCursor) : Checked NameCursor :=
  if i = 15 ∧ 0 < c.sublen then do
    let b ← store c.buffer c.tmp2 [UInt8.ofNat (c.sublen + 1)]
    let b ← store b (c.tmp2 + 1) ((dns.drop c.tmp1).take (c.sublen + 1))
    return { c with buffer := b, tmp2 := c.tmp2 + 1 }
  else .ok c

/-- The flush at a dot, and the count of the label. -/
def flushAtDot (dns : Bytes) (ch : UInt8) (c : NameCursor) : Checked NameCursor :=
  if ch = 46 then do
    let b ← store c.buffer c.tmp2 [UInt8.ofNat c.sublen]
    let b ← store b (c.tmp2 + 1) ((dns.drop c.tmp1).take c.sublen)
    -- `sublen` is set to -1 and then incremented
    return ⟨b, c.tmp1 + (c.sublen + 1), c.tmp2 + 1 + c.sublen, 0⟩
  else .ok { c with sublen := c.sublen + 1 }

/-- The loop, from index `i` over the bytes of `dns` that are left. -/
def transferLoop (dns : Bytes) : Bytes → Nat → NameCursor → Checked NameCursor
  | [], _, c => .ok c
  | ch :: rest, i, c => do
    let c ← flushAt15 dns i c
    let c ← flushAtDot dns ch c
    transferLoop dns rest (i + 1) c

def transferDnsName (dns : CString) : Checked Bytes := do
  let c ← transferLoop dns.bytes dns.bytes 0 ⟨List.replicate NAMESIZE 0, 0, 0, 0⟩
  return c.buffer

/-! ## Packets -/

/-- The request that `resolve` sends: header, name, type and class. -/
def genDnsRequest (node : CString) : Checked Bytes := do
  let packet := initDnsPacket
  let question : DnsQuestion := ⟨htons packet.question.qtype, htons packet.question.qclass⟩
  let header := { packet.header with qdcount := htons packet.header.qdcount }
  let dnsBuffer ← transferDnsName node
  return header.bytes ++ dnsBuffer ++ bytes16 question.qtype ++ bytes16 question.qclass

/-- The error packet is built in a fresh block whose address is lost: the caller gets its own
buffer back, with the size of the packet. -/
def genErrorPkt (buffer : Bytes) : Bytes × Nat := (buffer, packetSize)

/-- The answer packet for the address bytes `hex`. -/
def genRespPkt (hex : Bytes) : Bytes :=
  let pack := initDnsPacket
  let header := { pack.header with
    fields := htons 0x8400, qdcount := htons 0x0001, ancount := htons 0x0001 }
  let question : DnsQuestion := ⟨0, 0⟩
  let answer : DnsAnswer := ⟨htons 0x0001, htons 0x0001, 0, htons 0x0004⟩
  header.bytes ++ validDns ++ question.bytes ++ validDns ++ answer.bytes.take 10 ++ hex.take 4

/-- `memcpy(ip_str, buffer + size - 4, 4)`; `none` is a failed receive, of size -1. -/
def parseResponse (recv : Option Bytes) : Checked Bytes :=
  match recv with
  | none => .error .outOfBounds
  | some d => do
    inBounds (4 ≤ d.length)
    return d.drop (d.length - 4)

/-- `resolve`: its result, and the `s_addr` it stores if any.  `sent` is the outcome of `sendto`,
`recv` that of `recvfrom`. -/
def resolve (node : CString) (sent : Bool) (recv : Option Bytes) : Checked (Int × Option Bytes) := do
  let _ ← genDnsRequest node
  if sent then
    let ip ← parseResponse recv
    return (0, some ip)
  else
    return (-1, none)

theorem genRespPkt_eq (hex : Bytes) : genRespPkt hex =
    [0, 0, 0x84, 0, 0, 1, 0, 1, 0, 0, 0, 0] ++ validDns ++ [0, 0, 0, 0] ++ validDns ++
      [0, 1, 0, 1, 0, 0, 0, 0, 0, 4] ++ hex.take 4 := rfl

/-- The address is the end of the answer packet. -/
theorem parseResponse_genRespPkt {hex : Bytes} (h : hex.length = 4) :
    parseResponse (some (genRespPkt hex)) = .ok hex := by
  have ht : hex.take 4 = hex := List.take_of_length_le (by omega)
  unfold parseResponse
  dsimp only
  rw [inBounds_pos (by rw [genRespPkt_eq]; simp), ok_bind, pure_eq_ok, genRespPkt_eq, ht]
  rw [List.length_append, h, Nat.add_sub_cancel, List.drop_left]

end VideoCdn
