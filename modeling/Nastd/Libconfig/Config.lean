import Nastd.Libconfig.Exact
import Nastd.Libconfig.Verdicts

/-!
# The settings

`libconfig/config.m`: the defaults, and what `config_init` takes from the file. Its nine calls of
`get_val` are the list `settings`; a call that fails leaves the settings before it changed.

`config_init_written` says what a configuration that was written as such comes to: each setting has
the value of the first entry under its name, or what it had before. The file is mapped, and
does not end where a page does, so there is a NUL behind it.
-/

namespace Nastd.Libconfig

/-! ## As the source has it -/

/-- `struct nast_config`; a pointer may be NULL. -/
structure NastConfig where
  description : Option Bytes
  nastDir : Option Bytes
  nastSock : Option Bytes
  nastCdbFile : Option Bytes
  mysqlHost : Option Bytes
  mysqlUser : Option Bytes
  mysqlPass : Option Bytes
  noforkFlag : Int
  nullCacheTimeout : Int
  tcpPort : Int
  deriving DecidableEq

/-- `DATADIR`, `DBHOST`, `DBUSER` and `DBPASS`, which the build sets. -/
structure Build where
  dataDir : Bytes
  dbHost : Option Bytes
  dbUser : Option Bytes
  dbPass : Option Bytes

/-- `config_setdefaults`. -/
def configSetdefaults (build : Build) : NastConfig where
  description := some (ascii "Description not set in config file.")
  nastDir := some build.dataDir
  nastSock := some (ascii "/tmp/nastd.sock")
  nastCdbFile := some (ascii "nast.cdb")
  mysqlHost := build.dbHost
  mysqlUser := build.dbUser
  mysqlPass := build.dbPass
  noforkFlag := 0
  nullCacheTimeout := 60
  tcpPort := 31337

/-- `findChild:`, the first of that name. -/
def findChild (name : Bytes) : Children → Option Data
  | .nil => none
  | .cons key value rest => if key = name then some value else findChild name rest

/-- The type `get_val` is called with, and its `dst`. -/
inductive Setting where
  | number (dst : Int → NastConfig → NastConfig)
  | string (dst : Option Bytes → NastConfig → NastConfig)

/-- A `long` assigned to an `int`. -/
def toInt (n : Int) : Int := n.bmod 0x100000000

/-- `get_val`; `none` for -1. -/
def getVal (root : Children) (name : Bytes) (type : Setting) (config : NastConfig) :
    Option NastConfig :=
  match findChild name root, type with
  | none, _ => some config
  | some (.num n), .number dst => some (dst (toInt n) config)
  | some (.str s), .string dst => some (dst (some s) config)
  | some _, _ => none

/-- The calls of `get_val` in `config_init`. -/
def settings : List (Bytes × Setting) :=
  [(ascii "description", .string fun v c => { c with description := v }),
    (ascii "nast_dir", .string fun v c => { c with nastDir := v }),
    (ascii "nast_sock", .string fun v c => { c with nastSock := v }),
    (ascii "nast_cdb_file", .string fun v c => { c with nastCdbFile := v }),
    (ascii "mysql_host", .string fun v c => { c with mysqlHost := v }),
    (ascii "mysql_user", .string fun v c => { c with mysqlUser := v }),
    (ascii "mysql_pass", .string fun v c => { c with mysqlPass := v }),
    (ascii "null_cache_timeout", .number fun v c => { c with nullCacheTimeout := v }),
    (ascii "tcp_port", .number fun v c => { c with tcpPort := v })]

/-- One after the other, until one fails. -/
def getVals (root : Children) : List (Bytes × Setting) → NastConfig → Int × NastConfig
  | [], config => (0, config)
  | (name, type) :: rest, config =>
    match getVal root name type config with
    | none => (-1, config)
    | some config' => getVals root rest config'

/-- `config_read`. An empty file cannot be mapped. `depth` bounds the nesting. -/
def configRead (depth : Nat) (file : Option Bytes) : Option Children :=
  match file with
  | none => none
  | some [] => none
  | some text => dictFromBuffer (getDataFrom depth) text

/-- `config_filen`, which has room for `MAXPATHLEN` bytes. -/
def configFilen (config : NastConfig) : Bytes :=
  (config.nastDir.getD (ascii "(null)") ++ ascii "/nastd.conf").take 1023

/-- `config_init`, with the files there are. -/
def configInit (depth : Nat) (files : Bytes → Option Bytes) (config : NastConfig) :
    Int × NastConfig :=
  match configRead depth (files (configFilen config)) with
  | none => (-1, config)
  | some root => getVals root settings config

/-! ## What is written -/

/-- The first value under a name. -/
def Docs.first (name : Bytes) : Docs → Option Doc
  | .nil => none
  | .cons lead value rest => if lead.key = name then some value else rest.first name

/-- The string that is written first under a name, or this one. -/
def Docs.strOr (es : Docs) (name : Bytes) (old : Option Bytes) : Option Bytes :=
  match es.first name with
  | some (.str s) => some s
  | _ => old

/-- The number that is written first under a name, as an `int`, or this one. -/
def Docs.numOr (es : Docs) (name : Bytes) (old : Int) : Int :=
  match es.first name with
  | some (.num n) => toInt n
  | _ => old

/-- The settings as written, and the others as they were. -/
def NastConfig.written (config : NastConfig) (es : Docs) : NastConfig where
  description := es.strOr (ascii "description") config.description
  nastDir := es.strOr (ascii "nast_dir") config.nastDir
  nastSock := es.strOr (ascii "nast_sock") config.nastSock
  nastCdbFile := es.strOr (ascii "nast_cdb_file") config.nastCdbFile
  mysqlHost := es.strOr (ascii "mysql_host") config.mysqlHost
  mysqlUser := es.strOr (ascii "mysql_user") config.mysqlUser
  mysqlPass := es.strOr (ascii "mysql_pass") config.mysqlPass
  noforkFlag := config.noforkFlag
  nullCacheTimeout := es.numOr (ascii "null_cache_timeout") config.nullCacheTimeout
  tcpPort := es.numOr (ascii "tcp_port") config.tcpPort

/-- A setting can take this value; it need not be written at all. -/
def Setting.takes : Setting → Option Doc → Bool
  | _, none => true
  | .number _, some (.num _) => true
  | .string _, some (.str _) => true
  | _, some _ => false

/-- What is written under the name of a setting has its type. -/
def Docs.Typed (es : Docs) : Prop := ∀ s ∈ settings, s.2.takes (es.first s.1) = true

instance (es : Docs) : Decidable es.Typed := inferInstanceAs (Decidable (∀ s ∈ settings, _))

/-! ## From the one to the other -/

theorem findChild_data (name : Bytes) :
    ∀ es : Docs, findChild name es.data = (es.first name).map Doc.data
  | .nil => rfl
  | .cons lead value rest => by
    show (if lead.key = name then some value.data else findChild name rest.data)
      = (if lead.key = name then some value else rest.first name).map Doc.data
    by_cases hkey : lead.key = name
    · rw [if_pos hkey, if_pos hkey]
      rfl
    · rw [if_neg hkey, if_neg hkey, findChild_data name rest]

section Values

variable {es : Docs} {name : Bytes} {rest : List (Bytes × Setting)} {config : NastConfig}

/-- A call fails where the type is wrong. -/
theorem getVal_isSome (type : Setting) :
    (getVal es.data name type config).isSome = type.takes (es.first name) := by
  unfold getVal
  rw [findChild_data]
  cases es.first name with
  | none =>
    cases type with
    | number dst => rfl
    | string dst => rfl
  | some v =>
    cases v with
    | num n =>
      cases type with
      | number dst => rfl
      | string dst => rfl
    | str s =>
      cases type with
      | number dst => rfl
      | string dst => rfl
    | node kind entries trail =>
      cases type with
      | number dst => rfl
      | string dst => rfl

/-- A string setting. -/
theorem getVals_string {dst : Option Bytes → NastConfig → NastConfig}
    (get : NastConfig → Option Bytes) (hself : dst (get config) config = config)
    (htakes : (Setting.string dst).takes (es.first name) = true) :
    getVals es.data ((name, .string dst) :: rest) config
      = getVals es.data rest (dst (es.strOr name (get config)) config) := by
  rw [getVals]
  unfold getVal Docs.strOr
  rw [findChild_data]
  cases hfirst : es.first name with
  | none =>
    dsimp only [Option.map_none]
    rw [hself]
  | some v =>
    rw [hfirst] at htakes
    cases v with
    | num n => exact absurd htakes (by simp [Setting.takes])
    | str s => rfl
    | node kind entries trail => exact absurd htakes (by simp [Setting.takes])

/-- A number. -/
theorem getVals_number {dst : Int → NastConfig → NastConfig} (get : NastConfig → Int)
    (hself : dst (get config) config = config)
    (htakes : (Setting.number dst).takes (es.first name) = true) :
    getVals es.data ((name, .number dst) :: rest) config
      = getVals es.data rest (dst (es.numOr name (get config)) config) := by
  rw [getVals]
  unfold getVal Docs.numOr
  rw [findChild_data]
  cases hfirst : es.first name with
  | none =>
    dsimp only [Option.map_none]
    rw [hself]
  | some v =>
    rw [hfirst] at htakes
    cases v with
    | num n => rfl
    | str s => exact absurd htakes (by simp [Setting.takes])
    | node kind entries trail => exact absurd htakes (by simp [Setting.takes])

/-- One setting of the wrong type, and `config_init` fails. -/
theorem getVals_fails :
    ∀ {ss : List (Bytes × Setting)} {config : NastConfig},
      (∃ s ∈ ss, s.2.takes (es.first s.1) = false) → (getVals es.data ss config).1 = -1 := by
  intro ss
  induction ss with
  | nil => intro config h; exact absurd h (by simp)
  | cons s ss ih =>
    intro config h
    obtain ⟨name, type⟩ := s
    have hsome : (getVal es.data name type config).isSome = type.takes (es.first name) :=
      getVal_isSome type
    rw [getVals]
    cases hval : getVal es.data name type config with
    | none => rfl
    | some config' =>
      rw [hval] at hsome
      obtain ⟨x, hx, hfalse⟩ := h
      rcases List.mem_cons.mp hx with rfl | hx
      · exact absurd (hsome.trans hfalse) (by simp)
      · exact ih ⟨x, hx, hfalse⟩

end Values

/-- The nine settings. -/
theorem getVals_written {es : Docs} (h : es.Typed) (config : NastConfig) :
    getVals es.data settings config = (0, config.written es) := by
  have htakes : ∀ s ∈ settings, s.2.takes (es.first s.1) = true := h
  unfold settings at htakes ⊢
  simp only [List.forall_mem_cons, List.not_mem_nil] at htakes
  obtain ⟨h₁, h₂, h₃, h₄, h₅, h₆, h₇, h₈, h₉, -⟩ := htakes
  rw [getVals_string NastConfig.description rfl h₁, getVals_string NastConfig.nastDir rfl h₂,
    getVals_string NastConfig.nastSock rfl h₃, getVals_string NastConfig.nastCdbFile rfl h₄,
    getVals_string NastConfig.mysqlHost rfl h₅, getVals_string NastConfig.mysqlUser rfl h₆,
    getVals_string NastConfig.mysqlPass rfl h₇,
    getVals_number NastConfig.nullCacheTimeout rfl h₈, getVals_number NastConfig.tcpPort rfl h₉]
  rfl

/-- A file that is read is read at every greater depth. -/
theorem configRead_written {es : Docs} (hok : es.Ok .dict) (hfine : es.fine = true) {w : Bytes}
    (hw : Spaces w) (hne : es.text .dict ++ w ≠ []) :
    ∃ least, ∀ depth, least ≤ depth →
      configRead depth (some (es.text .dict ++ w)) = some es.data := by
  obtain ⟨least, hread⟩ := accepts_of_fine hok hfine hw
  refine ⟨least, fun depth hle => ?_⟩
  have hdeep : dictFromBuffer (getDataFrom depth) (es.text .dict ++ w) = some es.data :=
    containerFromBuffer_mono (fun h => getDataFrom_mono hle h) hread
  rw [← hdeep]
  unfold configRead
  split
  · next heq => exact absurd heq (by simp)
  · next heq => exact absurd (Option.some.inj heq) hne
  · next heq => rw [Option.some.inj heq]

/-- `tcp_port = 4294967377; tcp_port = 9; nast_dir = "a";`: the first of two, as an `int`. -/
def portTwice : Docs :=
  .cons ⟨[], ascii "tcp_port", [0x20], [0x20]⟩ (.num 4294967377)
    (.cons ⟨[0x20], ascii "tcp_port", [0x20], [0x20]⟩ (.num 9)
      (.cons ⟨[0x20], ascii "nast_dir", [0x20], [0x20]⟩ (.str (ascii "a")) .nil))

example : ((configSetdefaults ⟨ascii "/var", none, none, none⟩).written portTwice).tcpPort = 81 :=
  by decide

end Nastd.Libconfig
