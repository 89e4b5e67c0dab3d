import VideoCdn.Lib.CString
import Mathlib.Logic.Function.Basic

/-!
# The web servers of the simulated network (`netsim/apache_setup.py`, `netsim/netsim.py`)

`netsim.py` writes the addresses of a topology's servers into the configuration of Apache when it
starts the network, and puts a copy back when it stops it.

* `ApacheSetup`, `Command`, `ApacheSetup.main` — the commands, for any way of keeping the
  configuration.
* `Brackets`, `Brackets.run` — what is known behind any commands, from what configuring and resetting
  do to the states that a run can be in.
* `SingleConf`, `singleConf_run` — **one file** (Fedora, Red Hat): behind any commands it is the
  original with a `ServerName`, and with the hosts of the last command only.
* `SplitConf`, `splitConf_run` — **a directory of sites** (Ubuntu): `ports.conf` is put back exactly,
  but a site stays until a network is stopped that has its address.
-/

set_option autoImplicit false

namespace VideoCdn

open CLib

/-! ## Commands -/

/-- What `apache_setup.py` offers for one distribution, on the files `σ` that it changes. -/
structure ApacheSetup (σ : Type) where
  isApacheConfigured : σ → Bool
  configureApache : List Bytes → σ → σ
  resetApache : List Bytes → σ → σ

/-- `args.command`, with the addresses in the servers file of `args.topology`. `others` is what
`is_click_running` or `is_tc_configured` answers when the network is started. -/
inductive Command where
  | start (others : Bool) (ipList : List Bytes)
  | stop (ipList : List Bytes)
  | restart (others : Bool) (ipList : List Bytes)

def Command.ipList : Command → List Bytes
  | .start _ ipList | .stop ipList | .restart _ ipList => ipList

namespace ApacheSetup

variable {σ : Type} (A : ApacheSetup σ)

def networkRunning (others : Bool) (s : σ) : Bool := A.isApacheConfigured s || others

def stopNetwork (ipList : List Bytes) (s : σ) : σ := A.resetApache ipList s

def startNetwork (others : Bool) (ipList : List Bytes) (s : σ) : σ :=
  A.configureApache ipList (if A.networkRunning others s then A.stopNetwork ipList s else s)

def main : Command → σ → σ
  | .start others ipList, s => A.startNetwork others ipList s
  | .stop ipList, s => A.stopNetwork ipList s
  | .restart others ipList, s => A.startNetwork others ipList (A.stopNetwork ipList s)

def run (cmds : List Command) (s : σ) : σ := cmds.foldl (fun s c => A.main c s) s

@[simp] theorem run_nil (s : σ) : A.run [] s = s := rfl

@[simp] theorem run_concat (cmds : List Command) (c : Command) (s : σ) :
    A.run (cmds ++ [c]) s = A.main c (A.run cmds s) := by
  simp [run]

end ApacheSetup

/-! ## What is known behind any commands -/

section Brackets

variable {σ : Type}

/-- Resetting files that a run can meet gives those of a stopped network, configuring these gives those
of a started one, and files that a start takes for a stopped network's are marked by configuring. -/
structure Brackets (A : ApacheSetup σ) (admissible : List Bytes → Prop) where
  known : σ → Prop
  stopped : σ → Prop
  started : List Bytes → σ → Prop
  known_of_stopped : ∀ {s}, stopped s → known s
  known_of_started : ∀ {s ipList}, started ipList s → known s
  marked_of_started : ∀ {s ipList}, started ipList s → A.isApacheConfigured s = true
  reset : ∀ {s ipList}, admissible ipList → known s → stopped (A.resetApache ipList s)
  configure : ∀ {s ipList}, admissible ipList → stopped s → started ipList (A.configureApache ipList s)
  configure_unmarked : ∀ {s ipList}, admissible ipList → known s → A.isApacheConfigured s = false →
    known (A.configureApache ipList s) ∧ A.isApacheConfigured (A.configureApache ipList s) = true

namespace Brackets

variable {A : ApacheSetup σ} {admissible : List Bytes → Prop} (B : Brackets A admissible)

/-- The files are those of a stopped network, or a start sees that they have to be reset. -/
def InOrder (s : σ) : Prop := B.stopped s ∨ A.isApacheConfigured s = true

variable {B} {s : σ} {ipList : List Bytes}

theorem startNetwork_started (hadm : admissible ipList) (hs : B.known s) (horder : B.InOrder s)
    (others : Bool) : B.started ipList (A.startNetwork others ipList s) := by
  unfold ApacheSetup.startNetwork ApacheSetup.stopNetwork
  split
  · exact B.configure hadm (B.reset hadm hs)
  · rename_i hrunning
    rcases horder with hstopped | hmarked
    · exact B.configure hadm hstopped
    · exact absurd (by simp [ApacheSetup.networkRunning, hmarked]) hrunning

theorem startNetwork_known (hadm : admissible ipList) (hs : B.known s) (others : Bool) :
    B.known (A.startNetwork others ipList s) ∧
      A.isApacheConfigured (A.startNetwork others ipList s) = true := by
  unfold ApacheSetup.startNetwork ApacheSetup.stopNetwork
  split
  · have hstarted := B.configure hadm (B.reset hadm hs)
    exact ⟨B.known_of_started hstarted, B.marked_of_started hstarted⟩
  · rename_i hrunning
    refine B.configure_unmarked hadm hs ?_
    simp only [ApacheSetup.networkRunning, Bool.or_eq_true, not_or, Bool.not_eq_true] at hrunning
    exact hrunning.1

theorem main_known {c : Command} (hadm : admissible c.ipList) (hs : B.known s) :
    B.known (A.main c s) ∧ B.InOrder (A.main c s) := by
  cases c with
  | start others ipList =>
    have h := startNetwork_known hadm hs others
    exact ⟨h.1, Or.inr h.2⟩
  | stop ipList =>
    have h := B.reset hadm hs
    exact ⟨B.known_of_stopped h, Or.inl h⟩
  | restart others ipList =>
    have h := startNetwork_known hadm (B.known_of_stopped (B.reset hadm hs)) others
    exact ⟨h.1, Or.inr h.2⟩

/-- **Run lemma.** Behind any commands the files are known, and in order from the first command on. -/
theorem run (hs : B.known s) (cmds : List Command) (hadm : ∀ c ∈ cmds, admissible c.ipList) :
    B.known (A.run cmds s) ∧ (cmds ≠ [] ∨ B.InOrder s → B.InOrder (A.run cmds s)) := by
  induction cmds using List.reverseRecOn with
  | nil => exact ⟨hs, fun h => h.resolve_left fun hne => hne rfl⟩
  | append_singleton cmds c ih =>
    have hbefore := (ih fun c hc => hadm c (List.mem_append_left [_] hc)).1
    have hmain := main_known (hadm c (by simp)) hbefore
    rw [ApacheSetup.run_concat]
    exact ⟨hmain.1, fun _ => hmain.2⟩

theorem run_stop (hs : B.known s) (cmds : List Command)
    (hadm : ∀ c ∈ cmds ++ [.stop ipList], admissible c.ipList) :
    B.stopped (A.run (cmds ++ [.stop ipList]) s) := by
  rw [ApacheSetup.run_concat]
  have hbefore := (run hs cmds fun c hc => hadm c (List.mem_append_left _ hc)).1
  exact B.reset (hadm (.stop ipList) (by simp)) hbefore

theorem run_restart (hs : B.known s) (cmds : List Command) (others : Bool)
    (hadm : ∀ c ∈ cmds ++ [.restart others ipList], admissible c.ipList) :
    B.started ipList (A.run (cmds ++ [.restart others ipList]) s) := by
  rw [ApacheSetup.run_concat]
  have hbefore := (run hs cmds fun c hc => hadm c (List.mem_append_left _ hc)).1
  have hlast := hadm (.restart others ipList) (by simp)
  have hreset := B.reset hlast hbefore
  exact startNetwork_started hlast (B.known_of_stopped hreset) (Or.inl hreset) others

theorem run_start (hs : B.known s) {cmds : List Command} (hne : cmds ≠ [] ∨ B.InOrder s)
    (others : Bool)
    (hadm : ∀ c ∈ cmds ++ [.start others ipList], admissible c.ipList) :
    B.started ipList (A.run (cmds ++ [.start others ipList]) s) := by
  rw [ApacheSetup.run_concat]
  have hbefore := run hs cmds fun c hc => hadm c (List.mem_append_left _ hc)
  exact startNetwork_started (hadm (.start others ipList) (by simp)) hbefore.1 (hbefore.2 hne) others

end Brackets

end Brackets

/-! ## Texts and their lines -/

/-- `word in line`. -/
def contains (word line : Bytes) : Bool := (strstr word line).isSome

theorem contains_cons {word line : Bytes} (h : contains word line = true) (c : UInt8) :
    contains word (c :: line) = true := by
  unfold contains at h ⊢
  rw [strstr]
  split
  · rfl
  · rwa [Option.isSome_map]

theorem any_contains_cons {word s : Bytes} (h : (getlines s).any (contains word) = true) (c : UInt8) :
    (getlines (c :: s)).any (contains word) = true := by
  unfold getlines
  split
  · rw [List.any_cons, h, Bool.or_true]
  · cases hlines : getlines s with
    | nil => rw [hlines] at h; exact absurd h (by simp)
    | cons l ls =>
      rw [hlines, List.any_cons, Bool.or_eq_true] at h
      rw [List.any_cons, Bool.or_eq_true]
      exact h.imp_left fun h => contains_cons h c

theorem any_contains_append {word s : Bytes} (h : (getlines s).any (contains word) = true)
    (text : Bytes) : (getlines (text ++ s)).any (contains word) = true := by
  induction text with
  | nil => exact h
  | cons c text ih => exact any_contains_cons ih c

/-- A line is complete with the next newline. -/
theorem getlines_append_newline (a b : Bytes) :
    getlines (a ++ 10 :: b) = getlines (a ++ [10]) ++ getlines b := by
  induction a with
  | nil => rfl
  | cons c a ih =>
    rw [List.cons_append, List.cons_append, getlines, getlines, ih]
    by_cases hc : c = 10
    · rw [if_pos hc, if_pos hc]
      rfl
    · rw [if_neg hc, if_neg hc]
      cases hlines : getlines (a ++ [10]) with
      | nil =>
        have hflat := flatten_getlines (a ++ [10])
        rw [hlines] at hflat
        simp at hflat
      | cons l ls => rfl

/-- `NETSIM_STRING`. -/
def netsimString : Bytes := ascii "# Modified by netsim"

/-- `is_apache_configured_single_conf` and `is_apache_configured_split_conf`, for the text of the file;
one that cannot be opened is not configured. -/
def markedByNetsim (conf : Option Bytes) : Bool :=
  conf.any fun text => (getlines text).any (contains netsimString)

theorem markedByNetsim_append (text rest : Bytes) :
    markedByNetsim (some (text ++ netsimString ++ 10 :: rest)) = true := by
  have hline : (getlines (netsimString ++ 10 :: rest)).any (contains netsimString) = true := by
    rw [getlines_line (by decide), List.any_cons, Bool.or_eq_true]
    exact Or.inl (by decide)
  rw [List.append_assoc]
  exact any_contains_append hline text

/-! ## One file -/

structure SingleConf where
  conf : Option Bytes
  confBak : Option Bytes
  deriving DecidableEq

namespace SingleConf

/-- The loops that look for a line with `ServerName` in it that is no comment. -/
def hasServerName (text : Bytes) : Bool :=
  (getlines text).any fun line => contains (ascii "ServerName") line && line.head? != some 35

/-- What is appended when there is none. -/
def serverName : Bytes := ascii "\nServerName www.example.com:80\n"

/-- `APACHE_VIRTUAL_HOST_TEMPLATE`. -/
def virtualHost (docRoot ip : Bytes) : Bytes :=
  ascii "\n\nListen " ++ ip ++ ascii ":8080\n<VirtualHost " ++ ip ++
    ascii ":8080>\n    ServerAdmin webmaster@localhost\n    ServerName video.cs.cmu.edu:8080\n\n" ++
    ascii "    DocumentRoot " ++ docRoot ++
    ascii "\n    <Directory />\n        Options FollowSymLinks\n        AllowOverride None\n" ++
    ascii "    </Directory>\n    <Directory " ++ docRoot ++
    ascii "/>\n        Options Indexes FollowSymLinks MultiViews\n        AllowOverride None\n" ++
    ascii "        Order allow,deny\n        allow from all\n    </Directory>\n\n</VirtualHost>"

/-- The text with the hosts of `ipList`. -/
def virtualHosts (docRoot text : Bytes) (ipList : List Bytes) : Bytes :=
  text ++ netsimString ++ 10 :: ((if hasServerName text then [] else serverName) ++
    ipList.flatMap (virtualHost docRoot))

def configureApacheSingleConf (docRoot : Bytes) (ipList : List Bytes) (s : SingleConf) : SingleConf :=
  match s.conf with
  | none => s
  | some text => ⟨some (virtualHosts docRoot text ipList), some text⟩

def resetApacheSingleConf (_ipList : List Bytes) (s : SingleConf) : SingleConf :=
  let s : SingleConf := match s.confBak with
    | none => s
    | some text => ⟨some text, none⟩
  if s.conf.any hasServerName then s
  else { s with conf := some (s.conf.getD [] ++ serverName) }

/-- The configuration of Fedora and of Red Hat, which differ in the directory of the documents. -/
def setup (docRoot : Bytes) : ApacheSetup SingleConf where
  isApacheConfigured s := markedByNetsim s.conf
  configureApache := configureApacheSingleConf docRoot
  resetApache := resetApacheSingleConf

/-- The original as a stopped network leaves it. -/
def settled (text : Bytes) : Bytes := if hasServerName text then text else text ++ serverName

theorem hasServerName_settled (text : Bytes) : hasServerName (settled text) = true := by
  unfold settled
  split
  · assumption
  · rw [serverName, hasServerName]
    change (getlines (text ++ 10 :: ascii "ServerName www.example.com:80\n")).any _ = true
    rw [getlines_append_newline, List.any_append, Bool.or_eq_true]
    exact Or.inr (by decide)

theorem settled_settled (text : Bytes) : settled (settled text) = settled text := by
  rw [settled, if_pos (hasServerName_settled text)]

theorem reset_noBackup (text : Bytes) (ipList : List Bytes) :
    resetApacheSingleConf ipList ⟨some text, none⟩ = ⟨some (settled text), none⟩ := by
  by_cases h : hasServerName text = true <;> simp [resetApacheSingleConf, settled, h]

theorem reset_backup (conf text : Bytes) (ipList : List Bytes) :
    resetApacheSingleConf ipList ⟨some conf, some text⟩ = ⟨some (settled text), none⟩ := by
  by_cases h : hasServerName text = true <;> simp [resetApacheSingleConf, settled, h]

/-- The files of a run from a file without backup: put back, or with the hosts of some addresses
behind the original or what was put back. -/
def Known (docRoot p : Bytes) (s : SingleConf) : Prop :=
  ∃ text, (text = p ∨ text = settled p) ∧
    (s = ⟨some text, none⟩ ∨ ∃ ipList, s = ⟨some (virtualHosts docRoot text ipList), some text⟩)

theorem reset_of_known {docRoot p : Bytes} {s : SingleConf} (hs : Known docRoot p s)
    (ipList : List Bytes) : resetApacheSingleConf ipList s = ⟨some (settled p), none⟩ := by
  obtain ⟨text, htext, hs⟩ := hs
  have hsettled : settled text = settled p := by
    rcases htext with rfl | rfl
    · rfl
    · exact settled_settled p
  rw [← hsettled]
  rcases hs with rfl | ⟨_, rfl⟩
  · exact reset_noBackup text ipList
  · exact reset_backup _ text ipList

/-- What the commands do to the file `p`. -/
def brackets (docRoot p : Bytes) : Brackets (setup docRoot) fun _ => True where
  known := Known docRoot p
  stopped s := s = ⟨some (settled p), none⟩
  started ipList s := s = ⟨some (virtualHosts docRoot (settled p) ipList), some (settled p)⟩
  known_of_stopped h := ⟨settled p, Or.inr rfl, Or.inl h⟩
  known_of_started h := ⟨settled p, Or.inr rfl, Or.inr ⟨_, h⟩⟩
  marked_of_started := by
    rintro s ipList rfl
    exact markedByNetsim_append (settled p) _
  reset {_ ipList} _ hs := reset_of_known hs ipList
  configure := by
    rintro s ipList - rfl
    rfl
  configure_unmarked := by
    rintro s ipList - ⟨text, htext, hs⟩ hunmarked
    rcases hs with rfl | ⟨other, rfl⟩
    · exact ⟨⟨text, htext, Or.inr ⟨ipList, rfl⟩⟩, markedByNetsim_append text _⟩
    · exact absurd (markedByNetsim_append text _) (Bool.not_eq_true _ ▸ hunmarked)

end SingleConf

open SingleConf in
/-- **One file.** From a file without backup, whatever is in it and whatever commands came before: a
stop leaves the original, with a `ServerName` if it had none, and no backup. A start, or a restart,
leaves the hosts of its own addresses only, behind that text, and the backup has the text. The first
command of all, when it is a start, may leave the original itself in place of that text. -/
theorem singleConf_run (docRoot p : Bytes) (first : Command) (cmds : List Command) (others : Bool)
    (ipList : List Bytes) :
    (setup docRoot).run (cmds ++ [.stop ipList]) ⟨some p, none⟩ = ⟨some (settled p), none⟩ ∧
    (setup docRoot).run (cmds ++ [.restart others ipList]) ⟨some p, none⟩ =
      ⟨some (virtualHosts docRoot (settled p) ipList), some (settled p)⟩ ∧
    (setup docRoot).run (first :: cmds ++ [.start others ipList]) ⟨some p, none⟩ =
      ⟨some (virtualHosts docRoot (settled p) ipList), some (settled p)⟩ ∧
    (setup docRoot).run [.start others ipList] ⟨some p, none⟩ =
      (if markedByNetsim (some p) || others then
        ⟨some (virtualHosts docRoot (settled p) ipList), some (settled p)⟩
      else ⟨some (virtualHosts docRoot p ipList), some p⟩) := by
  have hknown : (brackets docRoot p).known ⟨some p, none⟩ := ⟨p, Or.inl rfl, Or.inl rfl⟩
  refine ⟨Brackets.run_stop hknown cmds fun _ _ => trivial,
    Brackets.run_restart hknown cmds others fun _ _ => trivial,
    Brackets.run_start hknown (Or.inl (List.cons_ne_nil first cmds)) others fun _ _ => trivial, ?_⟩
  change configureApacheSingleConf docRoot ipList
    (if markedByNetsim (some p) || others then resetApacheSingleConf ipList ⟨some p, none⟩
      else ⟨some p, none⟩) = _
  rw [reset_noBackup]
  split <;> rfl

/-! ## A directory of sites -/

structure SplitConf where
  ports : Option Bytes
  portsBak : Option Bytes
  available : Bytes → Option Bytes
  enabled : Bytes → Bool

namespace SplitConf

/-- The name of `APACHE_UBUNTU_DEFAULT_SITE` in `APACHE_UBUNTU_SITES_AVAILABLE`. -/
def defaultSite : Bytes := ascii "default"

/-- What `ports.conf` gets for one address. -/
def listenOn (ip : Bytes) : Bytes :=
  ascii "\n\nNameVirtualHost " ++ ip ++ ascii ":8080\nListen " ++ ip ++ ascii ":8080"

/-- The site of one address, from the default site. -/
def siteText (ip text : Bytes) : Bytes :=
  (getlines text).flatMap fun line =>
    if contains (ascii "<VirtualHost") line then ascii "<VirtualHost " ++ ip ++ ascii ":8080>\n"
    else line

/-- The loop over `ip_list`, which ends when there is no default site to read. -/
def configureSites : List Bytes → SplitConf → SplitConf
  | [], s => s
  | ip :: ipList, s =>
    let s := { s with ports := some (s.ports.getD [] ++ listenOn ip) }
    match s.available defaultSite with
    | none => s
    | some text =>
      -- a site with the default site's name is emptied before it is read
      let text := if ip = defaultSite then [] else text
      configureSites ipList { s with
        available := Function.update s.available ip (some (siteText ip text))
        enabled := Function.update s.enabled ip true }

def configureApacheSplitConf (ipList : List Bytes) (s : SplitConf) : SplitConf :=
  match s.ports with
  | none => s
  | some text =>
    configureSites ipList
      { s with ports := some (text ++ netsimString ++ [10]), portsBak := some text }

def resetApacheSplitConf (ipList : List Bytes) (s : SplitConf) : SplitConf :=
  let s := match s.portsBak with
    | none => s
    | some text => { s with ports := some text, portsBak := none }
  { s with
    available := fun ip => if ipList.contains ip then none else s.available ip
    enabled := fun ip => if ipList.contains ip then false else s.enabled ip }

/-- The configuration of Ubuntu. -/
def setup : ApacheSetup SplitConf where
  isApacheConfigured s := markedByNetsim s.ports
  configureApache := configureApacheSplitConf
  resetApache := resetApacheSplitConf

/-- `ports.conf` with the addresses `ipList`. -/
def portsText (text : Bytes) (ipList : List Bytes) : Bytes :=
  text ++ netsimString ++ 10 :: ipList.flatMap listenOn

theorem update_of_contains {α : Type} (f g : Bytes → α) (ip : Bytes) (ipList : List Bytes) :
    (fun x => if ipList.contains x then g x else Function.update f ip (g ip) x) =
      fun x => if (ip :: ipList).contains x then g x else f x := by
  funext x
  rw [List.contains_cons]
  by_cases hx : x = ip
  · subst hx
    simp
  · simp [hx]

theorem configureSites_eq {d : Bytes} : ∀ {ipList : List Bytes} {s : SplitConf} {text : Bytes},
    s.ports = some text → s.available defaultSite = some d → defaultSite ∉ ipList →
    configureSites ipList s = { s with
      ports := some (text ++ ipList.flatMap listenOn)
      available := fun ip => if ipList.contains ip then some (siteText ip d) else s.available ip
      enabled := fun ip => if ipList.contains ip then true else s.enabled ip }
  | [], s, text, hports, _, _ => by
    cases s
    simp_all [configureSites]
  | ip :: ipList, s, text, hports, hd, hne => by
    rw [List.mem_cons, not_or] at hne
    have hdefault : Function.update s.available ip (some (siteText ip d)) defaultSite = some d := by
      rw [Function.update_of_ne hne.1, hd]
    simp only [configureSites, hd, if_neg (Ne.symm hne.1), hports, Option.getD_some]
    rw [@configureSites_eq d ipList _ (text ++ listenOn ip) rfl hdefault hne.2]
    simp only [List.flatMap_cons, List.append_assoc,
      update_of_contains s.available (fun x => some (siteText x d)),
      update_of_contains s.enabled (fun _ => true)]

/-- The file of a site, and whether it is enabled. -/
def site (s : SplitConf) (ip : Bytes) : Option Bytes × Bool := (s.available ip, s.enabled ip)

/-- `ports.conf` and its backup. -/
def portsFiles (s : SplitConf) : Option Bytes × Option Bytes := (s.ports, s.portsBak)

/-- There is a `ports.conf`, and a default site to read. -/
structure Ready (d : Bytes) (s : SplitConf) : Prop where
  ports : s.ports.isSome = true
  default : s.available defaultSite = some d

variable {d p : Bytes} {s : SplitConf} {ipList : List Bytes}

theorem configure_spec {text : Bytes} (hports : s.ports = some text)
    (hd : s.available defaultSite = some d) (hne : defaultSite ∉ ipList) :
    (configureApacheSplitConf ipList s).portsFiles = (some (portsText text ipList), some text) ∧
    ∀ ip, (configureApacheSplitConf ipList s).site ip =
      if ipList.contains ip then (some (siteText ip d), true) else s.site ip := by
  unfold configureApacheSplitConf
  rw [hports]
  simp only
  rw [configureSites_eq rfl (by exact hd) hne]
  constructor
  · simp [portsFiles, portsText]
  · intro ip
    by_cases h : ipList.contains ip = true <;> simp only [site, h, if_true]
    rfl

theorem reset_site (ip : Bytes) : (resetApacheSplitConf ipList s).site ip =
    if ipList.contains ip then (none, false) else s.site ip := by
  unfold resetApacheSplitConf site
  by_cases h : ipList.contains ip = true <;> cases s.portsBak <;> simp only [h, if_true]
  all_goals rfl

theorem Ready.reset (hs : Ready d s) (hne : defaultSite ∉ ipList) :
    Ready d (resetApacheSplitConf ipList s) := by
  have hsite : (resetApacheSplitConf ipList s).site defaultSite = _ := reset_site defaultSite
  rw [if_neg (by simpa using hne)] at hsite
  refine ⟨?_, (congrArg Prod.fst hsite).trans hs.default⟩
  unfold resetApacheSplitConf
  cases hbak : s.portsBak with
  | none => exact hs.ports
  | some text => rfl

theorem Ready.configure (hs : Ready d s) (hne : defaultSite ∉ ipList) :
    Ready d (configureApacheSplitConf ipList s) := by
  obtain ⟨text, htext⟩ := Option.isSome_iff_exists.mp hs.ports
  have hspec := configure_spec htext hs.default hne
  have hsite := hspec.2 defaultSite
  rw [if_neg (by simpa using hne)] at hsite
  have hports : (configureApacheSplitConf ipList s).ports = some (portsText text ipList) :=
    congrArg Prod.fst hspec.1
  exact ⟨hports ▸ rfl, (congrArg Prod.fst hsite).trans hs.default⟩

/-- What the commands do to `ports.conf`, from the text `p`. -/
def brackets (d p : Bytes) : Brackets setup (defaultSite ∉ ·) where
  known s := Ready d s ∧
    (s.portsFiles = (some p, none) ∨ ∃ ipList, s.portsFiles = (some (portsText p ipList), some p))
  stopped s := Ready d s ∧ s.portsFiles = (some p, none)
  started ipList s := Ready d s ∧ s.portsFiles = (some (portsText p ipList), some p)
  known_of_stopped h := ⟨h.1, Or.inl h.2⟩
  known_of_started h := ⟨h.1, Or.inr ⟨_, h.2⟩⟩
  marked_of_started := by
    rintro s ipList ⟨-, h⟩
    have hports : s.ports = some (portsText p ipList) := congrArg Prod.fst h
    change markedByNetsim s.ports = true
    rw [hports]
    exact markedByNetsim_append p _
  reset := by
    rintro s ipList hne ⟨hready, h⟩
    refine ⟨hready.reset hne, ?_⟩
    rcases h with h | ⟨other, h⟩
    all_goals
      obtain ⟨hports, hbak⟩ := Prod.mk.inj h
      simp [setup, resetApacheSplitConf, portsFiles, hports, hbak]
  configure := by
    rintro s ipList hne ⟨hready, h⟩
    obtain ⟨hports, -⟩ := Prod.mk.inj h
    exact ⟨hready.configure hne, (configure_spec hports hready.default hne).1⟩
  configure_unmarked := by
    rintro s ipList hne ⟨hready, h⟩ hunmarked
    rcases h with h | ⟨other, h⟩
    · obtain ⟨hports, -⟩ := Prod.mk.inj h
      have hspec := (configure_spec hports hready.default hne).1
      refine ⟨⟨hready.configure hne, Or.inr ⟨ipList, hspec⟩⟩, ?_⟩
      change markedByNetsim (configureApacheSplitConf ipList s).portsFiles.1 = true
      rw [hspec]
      exact markedByNetsim_append p _
    · have hports : s.ports = some (portsText p other) := congrArg Prod.fst h
      change markedByNetsim s.ports = false at hunmarked
      rw [hports] at hunmarked
      exact absurd (markedByNetsim_append p _) (Bool.not_eq_true _ ▸ hunmarked)

/-- `ports.conf` and its backup behind a command. -/
def portsAfter (p : Bytes) : Command → Option Bytes × Option Bytes
  | .stop _ => (some p, none)
  | .start _ ipList | .restart _ ipList => (some (portsText p ipList), some p)

/-- A site behind a command that names it. -/
def siteAfter (d ip : Bytes) : Command → Option Bytes × Bool
  | .stop _ => (none, false)
  | .start .. | .restart .. => (some (siteText ip d), true)

theorem run_ports (hready : Ready d s) (hs : s.portsFiles = (some p, none)) (cmds : List Command)
    (c : Command) (hne : ∀ c' ∈ cmds ++ [c], defaultSite ∉ c'.ipList) :
    (setup.run (cmds ++ [c]) s).portsFiles = portsAfter p c := by
  have hstopped : (brackets d p).stopped s := ⟨hready, hs⟩
  have hknown := (brackets d p).known_of_stopped hstopped
  cases c with
  | start others ipList =>
    exact (Brackets.run_start hknown (Or.inr (Or.inl hstopped)) others hne).2
  | stop ipList => exact (Brackets.run_stop hknown cmds hne).2
  | restart others ipList => exact (Brackets.run_restart hknown cmds others hne).2

theorem startNetwork_sites (hs : Ready d s) (hne : defaultSite ∉ ipList) (others : Bool) :
    Ready d (setup.startNetwork others ipList s) ∧
    ∀ ip, (setup.startNetwork others ipList s).site ip =
      if ipList.contains ip then (some (siteText ip d), true) else s.site ip := by
  have hconfigure : ∀ {t : SplitConf}, Ready d t → ∀ ip, (configureApacheSplitConf ipList t).site ip =
      if ipList.contains ip then (some (siteText ip d), true) else t.site ip := by
    intro t ht
    obtain ⟨text, htext⟩ := Option.isSome_iff_exists.mp ht.ports
    exact (configure_spec htext ht.default hne).2
  unfold ApacheSetup.startNetwork ApacheSetup.stopNetwork
  split
  · have hreset : Ready d (setup.resetApache ipList s) := hs.reset hne
    refine ⟨hreset.configure hne, fun ip => (hconfigure hreset ip).trans ?_⟩
    split
    · rfl
    · rename_i hip
      exact (reset_site ip).trans (if_neg hip)
  · exact ⟨hs.configure hne, hconfigure hs⟩

/-- **Step lemma.** A command decides the sites that it names, and leaves the others as they are. -/
theorem main_sites {c : Command} (hs : Ready d s) (hne : defaultSite ∉ c.ipList) :
    Ready d (setup.main c s) ∧ ∀ ip, (setup.main c s).site ip =
      if c.ipList.contains ip then siteAfter d ip c else s.site ip := by
  cases c with
  | start others ipList => exact startNetwork_sites hs hne others
  | stop ipList => exact ⟨hs.reset hne, fun ip => reset_site ip⟩
  | restart others ipList =>
    have hreset : Ready d (setup.stopNetwork ipList s) := hs.reset hne
    have hstart := startNetwork_sites hreset hne others
    refine ⟨hstart.1, fun ip => (hstart.2 ip).trans ?_⟩
    change (if ipList.contains ip then _ else _) = if ipList.contains ip then _ else _
    split
    · rfl
    · rename_i hip
      exact (reset_site ip).trans (if_neg hip)

theorem run_sites (hs : Ready d s) (cmds : List Command) (hne : ∀ c ∈ cmds, defaultSite ∉ c.ipList) :
    Ready d (setup.run cmds s) ∧ ∀ ip, (setup.run cmds s).site ip =
      (cmds.reverse.find? (·.ipList.contains ip)).elim (s.site ip) (siteAfter d ip) := by
  induction cmds using List.reverseRecOn with
  | nil => exact ⟨hs, fun ip => rfl⟩
  | append_singleton cmds c ih =>
    obtain ⟨hready, hsites⟩ := ih fun c hc => hne c (List.mem_append_left [_] hc)
    obtain ⟨hready', hsites'⟩ := main_sites hready (hne c (by simp))
    rw [ApacheSetup.run_concat]
    refine ⟨hready', fun ip => (hsites' ip).trans ?_⟩
    rw [List.reverse_append, List.reverse_singleton, List.singleton_append, List.find?_cons]
    split
    · rename_i hip
      rw [hip]
      rfl
    · rename_i hip
      rw [Bool.not_eq_true] at hip
      rw [hip]
      exact hsites ip

end SplitConf

open SplitConf in
/-- **A directory of sites.** From a `ports.conf` without backup, behind any commands that do not name
the default site: `ports.conf` and its backup are what the last command alone leaves, the original or the
original with the addresses of that command, and each site is as the last command that names it left it,
whatever topologies were started and stopped since. -/
theorem splitConf_run {d p : Bytes} {s : SplitConf} (hports : s.ports = some p)
    (hbak : s.portsBak = none) (hd : s.available defaultSite = some d) (cmds : List Command)
    (c : Command) (hne : ∀ c' ∈ cmds ++ [c], defaultSite ∉ c'.ipList) :
    (setup.run (cmds ++ [c]) s).portsFiles = portsAfter p c ∧
    ∀ ip, (setup.run (cmds ++ [c]) s).site ip =
      ((cmds ++ [c]).reverse.find? (·.ipList.contains ip)).elim (s.site ip) (siteAfter d ip) := by
  have hready : Ready d s := ⟨hports ▸ rfl, hd⟩
  exact ⟨run_ports hready (by rw [portsFiles, hports, hbak]) cmds c hne,
    (run_sites hready _ hne).2⟩

open SplitConf in
/-- The site of a topology that was left with the network of another one. -/
theorem splitConf_run_stale :
    let s : SplitConf :=
      ⟨some [], none, fun name => if name = defaultSite then some [] else none, fun _ => false⟩
    let after := setup.run ([.start false [ascii "4.0.0.1"]] ++ [.stop [ascii "5.0.0.1"]]) s
    after.portsFiles = (some [], none) ∧
    after.site (ascii "4.0.0.1") = (some (siteText (ascii "4.0.0.1") []), true) := by
  intro s after
  have hrun := splitConf_run (s := s) (p := []) (d := []) rfl rfl rfl [.start false [ascii "4.0.0.1"]]
    (.stop [ascii "5.0.0.1"]) (by decide)
  exact ⟨hrun.1, hrun.2 (ascii "4.0.0.1")⟩

end VideoCdn
