import VideoCdn.Lib.CString

/-!
# The servers file (`get_servers` and `translate_ip_to_hex` of `src/nameserver.c`)

* `Server` — an entry of the list, with the string in its `sname` and its four address bytes.
* `newServer` — one iteration of the loop of `get_servers`: the line, with its terminator, goes into
  `sname[15]` and is tokenised at its dots.
* `getServers` — the list, in the order of the file.
* `QuadLine` — a dotted-quad line that fits; `getServers_quadLines`: a file of such lines gives the
  list of their addresses.
-/

set_option autoImplicit false

namespace VideoCdn

open CLib

/-- `server_list_t`: the string in `sname` and the bytes of `hex`. -/
structure Server where
  sname : Bytes
  hex : Bytes
  fits : sname.length < 15
  no_nul : (0 : UInt8) ∉ sname
  hex_length : hex.length = 4
  deriving DecidableEq

/-- The conversion of an `int` to a `char`. -/
def toChar (a : Int) : UInt8 := UInt8.ofNat (a % 256).toNat

/-- The tokens of `line` overwrite the bytes of `hex` one by one; a fifth token ends the loop. -/
def translateIpToHex (line : Bytes) (hex : Nat → UInt8) : Bytes :=
  ((strtok (· == 46) line).take 4).map (fun ptr => toChar (atoi ptr)) ++
    ((List.range 4).drop (strtok (· == 46) line).length).map hex

theorem length_translateIpToHex (line : Bytes) (hex : Nat → UInt8) :
    (translateIpToHex line hex).length = 4 := by
  simp only [translateIpToHex, List.length_append, List.length_map, List.length_take,
    List.length_drop, List.length_range]
  omega

/-- One line of the file.  `strncpy` leaves no terminator in `sname[15]` when the line has fifteen
bytes or more, and `strtok` then reads past the end of its copy.  `uninit` is what `malloc` left in
`hex`. -/
def newServer (uninit : Nat → UInt8) (line : Bytes) : Checked Server :=
  if h : (cstr line).length < 15 then
    .ok ⟨cstr line, translateIpToHex (cstr line) uninit, h, no_nul_cstr line,
      length_translateIpToHex _ _⟩
  else .error .outOfBounds

/-- `get_servers`; `none` is a file that cannot be opened. -/
def getServers (uninit : Nat → Nat → UInt8) (file : Option Bytes) : Checked (List Server) :=
  match file with
  | none => .error .exit
  | some text => (getlines text).foldlM (fun list line => do
      let tmp ← newServer (uninit list.length) line
      return list ++ [tmp]) []

/-! ## Dotted quads -/

/-- A decimal numeral for one octet. -/
structure OctetText where
  text : Bytes
  ne_nil : text ≠ []
  digits : ∀ c ∈ text, isDigit c = true
  le : digitsValue text ≤ 255

def OctetText.value (o : OctetText) : UInt8 := UInt8.ofNat (digitsValue o.text)

/-- A line of the servers file: four numerals with dots between them, and the line terminator. -/
structure QuadLine where
  octets : List OctetText
  four : octets.length = 4
  eol : Bytes
  eol_eq : eol = [10] ∨ eol = [13, 10] ∨ eol = []
  fits : ([46].intercalate (octets.map OctetText.text) ++ eol).length ≤ 14

namespace QuadLine

/-- The address as text. -/
def quad (l : QuadLine) : Bytes := [46].intercalate (l.octets.map OctetText.text)

def text (l : QuadLine) : Bytes := l.quad ++ l.eol

/-- The four address bytes. -/
def address (l : QuadLine) : Bytes := l.octets.map OctetText.value

end QuadLine

theorem atoi_octet_append (o : OctetText) {s : Bytes} (hs : ∀ c ∈ s.head?, isDigit c = false) :
    atoi (o.text ++ s) = digitsValue o.text := by
  have := o.le
  exact atoi_digits_append o.ne_nil o.digits (by omega) hs

theorem toChar_octet (o : OctetText) : toChar (digitsValue o.text : Nat) = o.value := by
  have := o.le
  unfold toChar OctetText.value
  congr 1
  omega

theorem not_dot_of_isDigit {c : UInt8} (h : isDigit c = true) : (c == 46) = false := by
  rw [beq_eq_false_iff_ne]
  rintro rfl
  exact absurd h (by decide)

/-- The terminator stays in the last token, where `atoi` stops in front of it. -/
theorem strtok_quadLine (l : QuadLine) : ∃ a b c d : OctetText, l.octets = [a, b, c, d] ∧
    strtok (· == 46) l.text = [a.text, b.text, c.text, d.text ++ l.eol] := by
  obtain ⟨octets, four, eol, heol, hfit⟩ := l
  obtain ⟨a, b, c, d, rfl⟩ : ∃ a b c d, octets = [a, b, c, d] := by
    match octets, four with
    | [a, b, c, d], _ => exact ⟨a, b, c, d, rfl⟩
  refine ⟨a, b, c, d, rfl, ?_⟩
  have hdot : ((46 : UInt8) == 46) = true := rfl
  have hnd : ∀ o : OctetText, ∀ x ∈ o.text, (x == 46) = false :=
    fun o x hx => not_dot_of_isDigit (o.digits x hx)
  have hend : ∀ x ∈ eol, (x == 46) = false := by
    rcases heol with rfl | rfl | rfl <;> exact not_of_any rfl
  have hlast : strtok (· == 46) (d.text ++ eol) = [d.text ++ eol] := by
    refine strtok_token (by simp [d.ne_nil]) (fun x hx => ?_)
    rcases List.mem_append.mp hx with hx | hx
    · exact hnd d x hx
    · exact hend x hx
  have htext : QuadLine.text ⟨[a, b, c, d], four, eol, heol, hfit⟩ =
      a.text ++ 46 :: (b.text ++ 46 :: (c.text ++ 46 :: (d.text ++ eol))) := by
    simp [QuadLine.text, QuadLine.quad, List.intercalate]
  rw [htext, strtok_token_append a.ne_nil (hnd a) hdot, strtok_token_append b.ne_nil (hnd b) hdot,
    strtok_token_append c.ne_nil (hnd c) hdot, hlast]

theorem QuadLine.head_eol_not_digit (l : QuadLine) : ∀ c ∈ l.eol.head?, isDigit c = false := by
  rcases l.eol_eq with h | h | h <;> rw [h]
  · simp [isDigit]
  · simp [isDigit]
  · simp

theorem translateIpToHex_quadLine (l : QuadLine) (hex : Nat → UInt8) :
    translateIpToHex l.text hex = l.address := by
  obtain ⟨a, b, c, d, hoct, htok⟩ := strtok_quadLine l
  have plain : ∀ o : OctetText, toChar (atoi o.text) = o.value := by
    intro o
    have := atoi_octet_append o (s := []) (by simp)
    rw [List.append_nil] at this
    rw [this, toChar_octet]
  have last : toChar (atoi (d.text ++ l.eol)) = d.value := by
    rw [atoi_octet_append d l.head_eol_not_digit, toChar_octet]
  unfold translateIpToHex QuadLine.address
  rw [htok, hoct]
  simp [plain, last]

theorem QuadLine.no_nul (l : QuadLine) : (0 : UInt8) ∉ l.text := by
  obtain ⟨a, b, c, d, hoct, -⟩ := strtok_quadLine l
  have hdig : ∀ o : OctetText, (0 : UInt8) ∉ o.text :=
    fun o h => absurd (o.digits 0 h) (by decide)
  have heol : (0 : UInt8) ∉ l.eol := by
    rcases l.eol_eq with h | h | h <;> rw [h] <;> simp
  unfold QuadLine.text QuadLine.quad
  rw [hoct]
  simp [List.intercalate, hdig, heol]

/-- **A dotted-quad line** becomes an entry with the line as its name and its octets as address. -/
theorem newServer_quadLine (l : QuadLine) (uninit : Nat → UInt8) :
    ∃ s, newServer uninit l.text = .ok s ∧ s.sname = l.text ∧ s.hex = l.address := by
  have hc : cstr l.text = l.text := cstr_of_no_nul l.no_nul
  have hlen : (cstr l.text).length < 15 := by
    rw [hc]
    exact Nat.lt_succ_of_le l.fits
  refine ⟨_, dif_pos hlen, hc, ?_⟩
  show translateIpToHex (cstr l.text) uninit = _
  rw [hc, translateIpToHex_quadLine]

/-- **The list has the addresses of the file**, in the order of its lines. -/
theorem getServers_quadLines (uninit : Nat → Nat → UInt8) (lines : List QuadLine) {file : Bytes}
    (hfile : getlines file = lines.map QuadLine.text) :
    ∃ servers, getServers uninit (some file) = .ok servers ∧
      servers.map Server.sname = lines.map QuadLine.text ∧
      servers.map Server.hex = lines.map QuadLine.address := by
  simp only [getServers, hfile]
  clear hfile
  suffices ∀ (ls : List QuadLine) (done : List Server), ∃ added,
      (ls.map QuadLine.text).foldlM (fun list line => do
        let tmp ← newServer (uninit list.length) line
        return list ++ [tmp]) done = .ok (done ++ added) ∧
      added.map Server.sname = ls.map QuadLine.text ∧
      added.map Server.hex = ls.map QuadLine.address by
    simpa using this lines []
  intro ls
  induction ls with
  | nil => intro done; exact ⟨[], by simp, rfl, rfl⟩
  | cons l ls ih =>
    intro done
    obtain ⟨s, hs, hname, hhex⟩ := newServer_quadLine l (uninit done.length)
    obtain ⟨added, hadded, hnames, hhexs⟩ := ih (done ++ [s])
    refine ⟨s :: added, ?_, by simp [hname, hnames], by simp [hhex, hhexs]⟩
    rw [List.map_cons, List.foldlM_cons, hs, ok_bind, pure_eq_ok, ok_bind, hadded]
    simp

end VideoCdn
