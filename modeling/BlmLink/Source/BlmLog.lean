import BlmLink.Source.BlmClient

/-!
# The log filter

blmbase.cpp:36-63. `blmlog_level` and `blmlog_modules` are globals that each `blmSetLog`
updates; `blmlog` and `blmlogDump` read them. What `pj_log` does with a message, the
arguments of the format and the `logfile` parameter, which the code does not read, are left
out. A `set<string>` is the list of its elements.
-/
namespace BlmLink.Source

/-- The string that a `const char*` points to. -/
def cString (p : Bytes) : Bytes := p.takeWhile fun ch => ch != 0

theorem cString_cons {ch : Byte} (more : ch ≠ 0) (cont : Bytes) :
    cString (ch :: cont) = ch :: cString cont := by
  unfold cString
  rw [List.takeWhile_cons_of_pos (by simpa using more)]

theorem cString_of_nulFree {p : Bytes} (nulFree : 0 ∉ p) : cString p = p := by
  induction p with
  | nil => rfl
  | cons ch p ih =>
    rw [List.mem_cons, not_or] at nulFree
    rw [cString_cons (Ne.symm nulFree.1), ih nulFree.2]

/-- A call of `pj_log`. -/
structure PjLog where
  module : Bytes
  detaillevel : Int
  fmt : String
  deriving DecidableEq, Repr

structure BlmLog where
  blmlog_level : Int
  blmlog_modules : List Bytes
  deriving DecidableEq, Repr

namespace BlmLog

def init : BlmLog := ⟨3, []⟩

/-- `blmlog_modules.insert`. -/
def insert (modules : List Bytes) (m : Bytes) : List Bytes :=
  if m ∈ modules then modules else modules ++ [m]

def blmSetLog (g : BlmLog) (detail_level : Int) (modules : Bytes) : BlmLog :=
  { blmlog_level := detail_level
    blmlog_modules := (splitString modules 0x20).foldl insert g.blmlog_modules }

/-- The test at the beginning of `blmlog` and `blmlogDump`. -/
def filtered (g : BlmLog) (detaillevel : Int) (module : Bytes) : Bool :=
  decide (g.blmlog_level < detaillevel) ||
    (!g.blmlog_modules.isEmpty && decide (cString module ∉ g.blmlog_modules))

def blmlog (g : BlmLog) (detaillevel : Int) (module : Bytes) (fmt : String) : List PjLog :=
  if g.filtered detaillevel module then [] else [⟨module, detaillevel, fmt⟩]

def blmlogDump (g : BlmLog) (detaillevel : Int) (module : Bytes) : List PjLog :=
  if g.filtered detaillevel module then []
  else g.blmlog detaillevel module "dumping %s %x bytes:" ++ g.blmlog detaillevel module "\n%s"

/-- A call of `blmSetLog`. -/
structure SetLog where
  detail_level : Int
  modules : Bytes
  deriving DecidableEq, Repr

/-- The globals after a sequence of calls. -/
def after (calls : List SetLog) : BlmLog :=
  calls.foldl (fun g call => g.blmSetLog call.detail_level call.modules) init

end BlmLog

end BlmLink.Source
