import VideoCdn.Grapher

/-!
# The text of a log (`update_throughput` in `src/bitrate.c`, and its reader `plot/grapher.py`)

* `printLf`, `logLine`, `logText` — what a proxy writes: a line of seven fields for each download.
* `float`, `parseLine`, `readLog` — what the script reads: the fields are parted by single blanks.
* `readLog_logText` — a log is read whole unless the name of a chunk has a blank.
* `fair_proxies` — the logs of any two runs of the proxy can be plotted unless one has such a name.
-/

set_option autoImplicit false

namespace VideoCdn

open CLib

/-! ## Writing -/

/-- The nearest integer; of two the even one. -/
def roundHalfEven (q : ℚ) : Int :=
  if q - q.floor < 1 / 2 ∨ q - q.floor = 1 / 2 ∧ q.floor % 2 = 0 then q.floor else q.floor + 1

def sixDigits (n : Nat) : Bytes :=
  (List.range 6).map fun i => UInt8.ofNat (48 + n / 10 ^ (5 - i) % 10)

/-- What `%lf` prints for a finite number. -/
def printLf (q : ℚ) : Bytes :=
  let n := (roundHalfEven (|q| * 1000000)).toNat
  let unsigned := decimal (n / 1000000) ++ 46 :: sixDigits (n % 1000000)
  if q < 0 then 45 :: unsigned else unsigned

/-- The numbers in a line of the log, and the address; the name of the chunk comes behind them. Of the
time the low 32 bits are printed. -/
def logFields (wwwIp : Bytes) (t : Nat) (log : LogRecord) : List Bytes :=
  [decimal (t % 4294967296), printLf log.duration, printLf log.throughput, printLf log.estimate,
    decimal log.bitrate, cstr wwwIp]

/-- A line without its end. A download that takes no time has an infinite throughput in the program; `inf`
is a number for `float` as well. -/
def logLine (wwwIp : Bytes) (t : Nat) (log : LogRecord) : Bytes :=
  [32].intercalate (logFields wwwIp t log ++ [cstr log.file])

/-- The call of `TEST_LOG` in second `t`. -/
def testLog (wwwIp : Bytes) (t : Nat) (log : LogRecord) : Bytes := logLine wwwIp t log ++ [10]

def logRecord : ProxyEvent → Option LogRecord
  | .chunkResponse _ _ _ log => some log
  | .accepted .. | .connected .. | .chunkRequest .. | .upstream .. | .downstream .. => none

/-- The downloads that are measured in a run, with their numbers. -/
def logRecords (evs : List ProxyEvent) : List (LogRecord × Nat) := (evs.filterMap logRecord).zipIdx

/-- What a run has in its log: line `n` is written in second `time n`. -/
def logOf (time : Nat → Nat) (evs : List ProxyEvent) : List LogLine :=
  (logRecords evs).map fun p => ⟨(time p.2 % 4294967296 : Nat), p.1.bitrate⟩

/-- The file that a run leaves, of which line `n` is written in second `time n`. -/
def logText (wwwIp : Bytes) (time : Nat → Nat) (evs : List ProxyEvent) : Bytes :=
  ((logRecords evs).map fun p => testLog wwwIp (time p.2) p.1).flatten

/-! ## Reading -/

/-- `float` of a numeral without a sign. -/
def unsignedFloat (s : Bytes) : Option ℚ :=
  match s.dropWhile isDigit with
  | [] => if s = [] then none else some (digitsValue s : ℚ)
  | 46 :: places =>
    if 2 ≤ s.length ∧ places.all isDigit = true then
      some (digitsValue s + digitsValue places / 10 ^ places.length)
    else none
  | _ => none

/-- `float` of a numeral without exponent; other texts are not looked at. -/
def float : Bytes → Option ℚ
  | 45 :: s => (unsignedFloat s).map fun q => -q
  | s => unsignedFloat s

/-- `int` of a float. -/
def truncate (q : ℚ) : Int := q.num.tdiv q.den

/-- One line in the loop that fills `BRs`; `none` is a `ValueError`. The numbers of a line that does not
count are read here too. -/
def parseLine (l : Bytes) : Option LogLine :=
  match l.splitOn 32 with
  | [t, dur, t_new, _avg, br, _ip, _seg] => do
    let t ← float t
    let br ← float br
    let _ ← float dur
    let _ ← float t_new
    return ⟨truncate t, truncate br⟩
  | _ => none

/-- `open(..).read().split('\n')[:-1]`, line by line. -/
def readLog (file : Bytes) : Option (List LogLine) := (file.splitOn 10).dropLast.mapM parseLine

/-- The points of the fairness plot, from the files. -/
def fairOf (files : List Bytes) : Option (List ℚ) := (files.mapM readLog).bind fair

/-! ## Numbers -/

theorem isDigit_of_mem_sixDigits {n : Nat} {c : UInt8} (h : c ∈ sixDigits n) : isDigit c = true := by
  obtain ⟨i, -, rfl⟩ := List.mem_map.mp h
  have hlt : n / 10 ^ (5 - i) % 10 < 10 := Nat.mod_lt _ (by omega)
  rw [isDigit_iff, UInt8.toNat_ofNat']
  omega

theorem dropWhile_decimal (n : Nat) : (decimal n).dropWhile isDigit = [] :=
  List.dropWhile_eq_nil_iff.mpr fun _ hc => isDigit_of_mem_decimal hc

theorem unsignedFloat_decimal (n : Nat) : unsignedFloat (decimal n) = some (n : ℚ) := by
  unfold unsignedFloat
  rw [dropWhile_decimal]
  have hvalue := digitsValue_decimal_append n (s := []) (by simp)
  rw [List.append_nil] at hvalue
  simp only [if_neg (decimal_ne_nil n), hvalue]

theorem unsignedFloat_places (n : Nat) {places : Bytes} (h : ∀ c ∈ places, isDigit c = true) :
    ∃ q, unsignedFloat (decimal n ++ 46 :: places) = some q := by
  have hdrop : (decimal n ++ 46 :: places).dropWhile isDigit = 46 :: places := by
    rw [List.dropWhile_append_of_pos fun _ hc => isDigit_of_mem_decimal hc]
    rfl
  have hlength : 2 ≤ (decimal n ++ 46 :: places).length := by
    have := List.length_pos_of_ne_nil (decimal_ne_nil n)
    rw [List.length_append, List.length_cons]
    omega
  unfold unsignedFloat
  rw [hdrop]
  exact ⟨_, if_pos ⟨hlength, List.all_eq_true.mpr h⟩⟩

/-- A numeral that begins with a digit has no sign. -/
theorem float_decimal_append (n : Nat) (s : Bytes) :
    float (decimal n ++ s) = unsignedFloat (decimal n ++ s) := by
  obtain ⟨c, rest, hdecimal⟩ := List.exists_cons_of_ne_nil (decimal_ne_nil n)
  have hc : isDigit c = true := isDigit_of_mem_decimal (hdecimal ▸ List.mem_cons_self)
  rw [hdecimal]
  unfold float
  split
  · rename_i heq
    rw [(List.cons.inj heq).1] at hc
    cases hc
  · rfl

/-- `int(float(..))` of a printed integer. -/
theorem float_decimal (n : Nat) : float (decimal n) = some (n : ℚ) := by
  have h := float_decimal_append n []
  rwa [List.append_nil, unsignedFloat_decimal] at h

theorem truncate_natCast (n : Nat) : truncate n = n := by
  simp [truncate]

/-- What `%lf` prints is a number. -/
theorem exists_float_printLf (q : ℚ) : ∃ x, float (printLf q) = some x := by
  unfold printLf
  generalize (roundHalfEven (|q| * 1000000)).toNat = n
  have hplaces : ∀ c ∈ sixDigits (n % 1000000), isDigit c = true := fun _ => isDigit_of_mem_sixDigits
  obtain ⟨x, hx⟩ := unsignedFloat_places (n / 1000000) hplaces
  dsimp only
  split
  · exact ⟨-x, congrArg (Option.map fun x => -x) hx⟩
  · exact ⟨x, (float_decimal_append _ _).trans hx⟩

/-- Seven places behind the point; of the two nearest texts the even one is printed. -/
example : printLf (67 / 128) = ascii "0.523438" := by decide +kernel

/-! ## Lines and fields -/

section splitOn
variable {sep : UInt8}

/-- Fields without the separator are read back; the last one may have it. -/
theorem splitOn_fields {fields : List Bytes} (h : ∀ field ∈ fields, sep ∉ field) (last : Bytes) :
    ([sep].intercalate (fields ++ [last])).splitOn sep = fields ++ last.splitOn sep := by
  induction fields with
  | nil => simp [List.intercalate]
  | cons field fields ih =>
    obtain ⟨hfield, hfields⟩ := List.forall_mem_cons.mp h
    have hrest : fields ++ [last] ≠ [] := by simp
    rw [List.cons_append, List.intercalate_cons_of_ne_nil hrest, List.append_assoc,
      List.singleton_append, List.splitOn_append_cons_self, List.splitOn_eq_singleton hfield,
      ih hfields]
    rfl

/-- Lines that are all ended are read back; behind them is an empty one. -/
theorem splitOn_lines {lines : List Bytes} (h : ∀ line ∈ lines, sep ∉ line) :
    (lines.map fun line => line ++ [sep]).flatten.splitOn sep = lines ++ [[]] := by
  induction lines with
  | nil => rfl
  | cons line lines ih =>
    obtain ⟨hline, hlines⟩ := List.forall_mem_cons.mp h
    rw [List.map_cons, List.flatten_cons, List.append_assoc, List.singleton_append,
      List.splitOn_append_cons_self, List.splitOn_eq_singleton hline, ih hlines]
    rfl

theorem notMem_intercalate {c : UInt8} (hc : c ≠ sep) {fields : List Bytes}
    (h : ∀ field ∈ fields, c ∉ field) : c ∉ [sep].intercalate fields := by
  induction fields with
  | nil => exact List.not_mem_nil
  | cons field fields ih =>
    obtain ⟨hfield, hfields⟩ := List.forall_mem_cons.mp h
    by_cases hrest : fields = []
    · rw [hrest, List.intercalate_singleton]
      exact hfield
    · rw [List.intercalate_cons_of_ne_nil hrest, List.mem_append, List.mem_append, List.mem_singleton]
      rintro ((hmem | rfl) | hmem)
      · exact hfield hmem
      · exact hc rfl
      · exact ih hfields hmem

end splitOn

/-- A list of which every element is read, or fails, by itself. -/
theorem mapM_eq_ite {α β : Type} {f : α → Option β} {p : α → Prop} [DecidablePred p] {g : α → β}
    {l : List α} (h : ∀ a ∈ l, f a = if p a then some (g a) else none) :
    l.mapM f = if ∀ a ∈ l, p a then some (l.map g) else none := by
  induction l with
  | nil => rfl
  | cons a l ih =>
    obtain ⟨ha, hl⟩ := List.forall_mem_cons.mp h
    rw [List.mapM_cons, ha, ih hl]
    by_cases hp : p a
    · by_cases hrest : ∀ b ∈ l, p b
      · simp only [hp, if_true, List.forall_mem_cons, true_and, if_pos hrest]
        rfl
      · simp only [hp, if_true, List.forall_mem_cons, true_and, if_neg hrest]
        rfl
    · simp [hp]

/-! ## What is read -/

/-- A text without blanks and ends of lines. -/
def FieldText (s : Bytes) : Prop := 32 ∉ s ∧ 10 ∉ s

theorem fieldText_of_digits {s : Bytes} (h : ∀ c ∈ s, isDigit c = true ∨ c = 45 ∨ c = 46) :
    FieldText s := by
  constructor
  all_goals
    intro hmem
    rcases h _ hmem with hc | hc | hc <;> cases hc

theorem fieldText_decimal (n : Nat) : FieldText (decimal n) :=
  fieldText_of_digits fun _ hc => Or.inl (isDigit_of_mem_decimal hc)

theorem fieldText_printLf (q : ℚ) : FieldText (printLf q) := by
  refine fieldText_of_digits fun c hc => ?_
  have hunsigned : ∀ n, c ∈ decimal (n / 1000000) ++ 46 :: sixDigits (n % 1000000) →
      isDigit c = true ∨ c = 45 ∨ c = 46 := by
    intro n hmem
    rcases List.mem_append.mp hmem with hmem | hmem
    · exact Or.inl (isDigit_of_mem_decimal hmem)
    rcases List.mem_cons.mp hmem with rfl | hmem
    · exact Or.inr (Or.inr rfl)
    · exact Or.inl (isDigit_of_mem_sixDigits hmem)
  unfold printLf at hc
  dsimp only at hc
  split at hc
  · rcases List.mem_cons.mp hc with rfl | hc
    · exact Or.inr (Or.inl rfl)
    · exact hunsigned _ hc
  · exact hunsigned _ hc

section Log
variable {wwwIp : Bytes} (hip : FieldText (cstr wwwIp))
include hip

theorem fieldText_logFields (t : Nat) (log : LogRecord) :
    ∀ field ∈ logFields wwwIp t log, FieldText field := by
  unfold logFields
  simp only [List.forall_mem_cons]
  exact ⟨fieldText_decimal _, fieldText_printLf _, fieldText_printLf _, fieldText_printLf _,
    fieldText_decimal _, hip, List.forall_mem_nil _⟩

/-- **A line** is read back if the name in it has no blank; otherwise it has too many fields. -/
theorem parseLine_logLine (t : Nat) (log : LogRecord) : parseLine (logLine wwwIp t log) =
    if 32 ∉ cstr log.file then some ⟨(t % 4294967296 : Nat), log.bitrate⟩ else none := by
  have hsplit := splitOn_fields (fun field hfield => (fieldText_logFields hip t log field hfield).1)
    (cstr log.file)
  unfold parseLine logLine
  rw [hsplit]
  by_cases hname : 32 ∈ cstr log.file
  · obtain ⟨a, b, hab⟩ := List.append_of_mem hname
    obtain ⟨x, xs, hx⟩ := List.exists_cons_of_ne_nil (List.splitOn_ne_nil 32 a)
    obtain ⟨y, ys, hy⟩ := List.exists_cons_of_ne_nil (List.splitOn_ne_nil 32 b)
    rw [if_neg (not_not.mpr hname), hab, List.splitOn_append_cons_self, hx, hy]
    cases xs <;> rfl
  · obtain ⟨dur, hdur⟩ := exists_float_printLf log.duration
    obtain ⟨t_new, ht_new⟩ := exists_float_printLf log.throughput
    rw [if_pos hname, List.splitOn_eq_singleton hname]
    simp only [logFields, List.cons_append, List.nil_append, float_decimal, hdur, ht_new,
      Option.bind_eq_bind, Option.bind_some, truncate_natCast]
    rfl

theorem notMem_logLine (t : Nat) {log : LogRecord} (hname : 10 ∉ cstr log.file) :
    10 ∉ logLine wwwIp t log := by
  refine notMem_intercalate (by decide) fun field hfield => ?_
  rcases List.mem_append.mp hfield with hfield | hfield
  · exact (fieldText_logFields hip t log field hfield).2
  · exact List.mem_singleton.mp hfield ▸ hname

/-- **A log** is read whole if no name in it has a blank, and not at all otherwise. -/
theorem readLog_logText (time : Nat → Nat) {evs : List ProxyEvent}
    (hnames : ∀ log ∈ evs.filterMap logRecord, 10 ∉ cstr log.file) :
    readLog (logText wwwIp time evs) =
      if ∀ log ∈ evs.filterMap logRecord, 32 ∉ cstr log.file then some (logOf time evs) else none := by
  have hmem : ∀ p ∈ logRecords evs, p.1 ∈ evs.filterMap logRecord := fun p hp =>
    List.mem_of_getElem? (List.mem_zipIdx_iff_getElem?.mp hp)
  have hall : (∀ p ∈ logRecords evs, 32 ∉ cstr p.1.file) ↔
      ∀ log ∈ evs.filterMap logRecord, 32 ∉ cstr log.file := by
    refine ⟨fun h log hlog => ?_, fun h p hp => h p.1 (hmem p hp)⟩
    obtain ⟨n, hn⟩ := List.mem_iff_getElem?.mp hlog
    exact h (log, n) (List.mem_zipIdx_iff_getElem?.mpr hn)
  have hlines : ∀ line ∈ (logRecords evs).map fun p => logLine wwwIp (time p.2) p.1, 10 ∉ line := by
    intro line hline
    obtain ⟨p, hp, rfl⟩ := List.mem_map.mp hline
    exact notMem_logLine hip (time p.2) (hnames p.1 (hmem p hp))
  have htext : logText wwwIp time evs =
      (((logRecords evs).map fun p => logLine wwwIp (time p.2) p.1).map fun l => l ++ [10]).flatten := by
    rw [List.map_map]
    rfl
  unfold readLog
  rw [htext, splitOn_lines hlines, List.dropLast_concat, List.mapM_map,
    mapM_eq_ite (p := fun p => 32 ∉ cstr p.1.file) fun p _ => parseLine_logLine hip (time p.2) p.1]
  exact if_congr hall rfl rfl

end Log

/-- With two blanks behind the method, the name begins with one. -/
example : chunkName (ascii "GET  /vod/10Seg1-Frag1 HTTP/1.1\n") = .ok (ascii " /vod/10Seg1-Frag1") := by
  decide

/-! ## The plots -/

/-- All rates in the log of a run are positive. -/
theorem logOf_pos {alpha : ℚ} {openFds : Finset Nat} {serverSockfd : Nat} {turns : List Turn}
    {st : ProxyState} {evs : List ProxyEvent}
    (hrun : Machine.run (iterate alpha serverSockfd) (.start openFds serverSockfd) turns =
      .ok (st, evs)) (time : Nat → Nat) : ∀ line ∈ logOf time evs, 0 < line.br := by
  intro line hline
  obtain ⟨⟨log, n⟩, hlog, rfl⟩ := List.mem_map.mp hline
  have hmem : log ∈ evs.filterMap logRecord :=
    List.mem_of_getElem? (List.mem_zipIdx_iff_getElem?.mp hlog)
  obtain ⟨e, he, hrecord⟩ := List.mem_filterMap.mp hmem
  cases e with
  | chunkResponse sid fd download =>
    cases hrecord
    obtain ⟨pre, post, rfl⟩ := List.append_of_mem he
    have hpre : pre ++ [.chunkResponse sid fd download log] <+:
        pre ++ .chunkResponse sid fd download log :: post := ⟨post, by simp⟩
    have hlisted := ((reported_run hrun).logged pre sid fd download log hpre).2
    have hpos : ∀ rate ∈ rateGet, 0 < rate := by decide
    exact Int.natCast_pos.mpr (hpos _ hlisted)
  | accepted | connected | chunkRequest | upstream | downstream => cases hrecord

/-- **Plots of two proxies**: whatever two proxies did, if both have logged a download, and the names in
their logs have no end of a line, the fairness is defined in every second, and between 1/2 and 1, unless
one of the names has a blank. With such a name nothing is plotted. -/
theorem fair_proxies {alpha₀ alpha₁ : ℚ} {openFds₀ openFds₁ : Finset Nat} {sockfd₀ sockfd₁ : Nat}
    {turns₀ turns₁ : List Turn} {st₀ st₁ : ProxyState} {evs₀ evs₁ : List ProxyEvent}
    (h₀ : Machine.run (iterate alpha₀ sockfd₀) (.start openFds₀ sockfd₀) turns₀ = .ok (st₀, evs₀))
    (h₁ : Machine.run (iterate alpha₁ sockfd₁) (.start openFds₁ sockfd₁) turns₁ = .ok (st₁, evs₁))
    (hlogged₀ : evs₀.filterMap logRecord ≠ []) (hlogged₁ : evs₁.filterMap logRecord ≠ [])
    {wwwIp₀ wwwIp₁ : Bytes} (hip₀ : FieldText (cstr wwwIp₀)) (hip₁ : FieldText (cstr wwwIp₁))
    (hnames₀ : ∀ log ∈ evs₀.filterMap logRecord, 10 ∉ cstr log.file)
    (hnames₁ : ∀ log ∈ evs₁.filterMap logRecord, 10 ∉ cstr log.file) (time₀ time₁ : Nat → Nat) :
    ((∀ log ∈ evs₀.filterMap logRecord ++ evs₁.filterMap logRecord, 32 ∉ cstr log.file) →
      ∃ points, fairOf [logText wwwIp₀ time₀ evs₀, logText wwwIp₁ time₁ evs₁] = some points ∧
        ∀ q ∈ points, 1 / 2 ≤ q ∧ q ≤ 1) ∧
    ((∃ log ∈ evs₀.filterMap logRecord ++ evs₁.filterMap logRecord, 32 ∈ cstr log.file) →
      fairOf [logText wwwIp₀ time₀ evs₀, logText wwwIp₁ time₁ evs₁] = none) := by
  have hread₀ := readLog_logText hip₀ time₀ hnames₀
  have hread₁ := readLog_logText hip₁ time₁ hnames₁
  have hne : ∀ {time : Nat → Nat} {evs : List ProxyEvent}, evs.filterMap logRecord ≠ [] →
      logOf time evs ≠ [] := by
    intro time evs h
    simpa [logOf, logRecords] using h
  constructor
  · intro hblank
    obtain ⟨hblank₀, hblank₁⟩ := List.forall_mem_append.mp hblank
    rw [if_pos hblank₀] at hread₀
    rw [if_pos hblank₁] at hread₁
    obtain ⟨points, hpoints, hbounds⟩ :=
      fair_bounds (hne hlogged₀) (hne hlogged₁) (logOf_pos h₀ time₀) (logOf_pos h₁ time₁)
    refine ⟨points, ?_, hbounds⟩
    rw [fairOf, List.mapM_cons, List.mapM_cons, hread₀, hread₁]
    exact hpoints
  · rintro ⟨log, hlog, hblank⟩
    rw [fairOf, List.mapM_cons, List.mapM_cons]
    rcases List.mem_append.mp hlog with hlog | hlog
    · rw [if_neg fun h => h log hlog hblank] at hread₀
      rw [hread₀]
      rfl
    · rw [if_neg fun h => h log hlog hblank] at hread₁
      rw [hread₁]
      cases readLog (logText wwwIp₀ time₀ evs₀) <;> rfl

/-- A proxy against itself, seven seconds later. -/
theorem fair_proxies_same : ∃ st evs points,
    Machine.run (iterate 1 3) (.start {0, 1, 2} 3) [chunkTurn {3} [0], chunkTurn {3} [1]] =
      .ok (st, evs) ∧
    fairOf [logText (ascii "4.0.0.1") (fun n => n) evs,
      logText (ascii "4.0.0.1") (fun n => n + 7) evs] = some points ∧
    ∀ q ∈ points, 1 / 2 ≤ q ∧ q ≤ 1 := by
  have hfiles : (Machine.run (iterate 1 3) (.start {0, 1, 2} 3)
      [chunkTurn {3} [0], chunkTurn {3} [1]]).map
        (fun r => (r.2.filterMap logRecord).map fun log => cstr log.file) =
      .ok [ascii "/vod/10Seg1-Frag1", ascii "/vod/10Seg1-Frag1"] := by
    decide +kernel
  obtain ⟨⟨st, evs⟩, hrun, hfiles⟩ := map_eq_ok.mp hfiles
  have hfield : ∀ log ∈ evs.filterMap logRecord, FieldText (cstr log.file) := by
    intro log hlog
    have hmem := List.mem_map_of_mem (f := fun log => cstr log.file) hlog
    rw [hfiles] at hmem
    have hname : cstr log.file = ascii "/vod/10Seg1-Frag1" := or_self_iff.mp (List.mem_pair.mp hmem)
    rw [hname]
    exact ⟨by decide, by decide⟩
  have hlogged : evs.filterMap logRecord ≠ [] := by
    rintro hnil
    rw [hnil] at hfiles
    cases hfiles
  have hip : FieldText (cstr (ascii "4.0.0.1")) := ⟨by decide, by decide⟩
  obtain ⟨points, hpoints⟩ := (fair_proxies hrun hrun hlogged hlogged hip hip
    (fun log hlog => (hfield log hlog).2) (fun log hlog => (hfield log hlog).2)
    (fun n => n) (fun n => n + 7)).1 (by
      rw [List.forall_mem_append, and_self]
      exact fun log hlog => (hfield log hlog).1)
  exact ⟨st, evs, points, hrun, hpoints⟩

end VideoCdn
