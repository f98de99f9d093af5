import OrderFlow.Retention
import Mathlib.Algebra.Order.Ring.Rat
import Mathlib.Data.Char
import Mathlib.Data.List.Lex
import Mathlib.Data.List.Sort

/-!
# The files of the `session1` logger

The IO thread appends each record to the file of the day. A new day opens a new file
and purges old ones; a file that has grown too large is renamed, in place of the one
renamed before, and opened afresh. A directory is a finite map from names to what the
files hold. `Day` says what has become of the entries of one day.

No file of the logger is touched by anybody else, and a file can always be opened.
-/
namespace SessionLogFiles

open Retention

abbrev Text := List Char

/-- What `%Y-%m-%d` prints. -/
structure Date where
  text : Text
  length : text.length = 10
  deriving DecidableEq

inductive Entry where
  | header (date : Date)
  | line (bytes : List UInt8)
  deriving DecidableEq

abbrev Directory := AList fun _ : Text => List Entry

structure LogConfig where
  filenameBase : Text
  maxFileSizeMb : UInt64
  maxFiles : Int

structure LogFiles where
  files : Directory
  currentDate : Date
  bytesWritten : Nat

def dotLog : Text := ['.', 'l', 'o', 'g']

/-- The name of the file of a day. -/
def path (config : LogConfig) (date : Date) : Text :=
  config.filenameBase ++ '_' :: date.text ++ dotLog

/-- The name of a file after its rotation. -/
def rotated (config : LogConfig) (date : Date) : Text := path config date ++ ['.', '1']

/-- `path::extension`; a dot in front of the name begins none. -/
def extension (name : Text) : Text :=
  let afterDot := (name.reverse.takeWhile (· ≠ '.')).reverse
  if name.length ≤ afterDot.length + 1 then [] else '.' :: afterDot

/-- The test of `purge_old_files`. -/
def isLog (config : LogConfig) (name : Text) : Bool :=
  decide (config.filenameBase ++ ['_'] <+: name) && decide (extension name = dotLog)

def maxBytes (config : LogConfig) : Nat := config.maxFileSizeMb.toNat * 1024 * 1024 % 2 ^ 64

def openLogFile (config : LogConfig) (files : Directory) (today : Date) : LogFiles where
  files := files.insert (path config today)
    ((files.lookup (path config today)).getD [] ++ [.header today])
  currentDate := today
  bytesWritten := 0

/-- The loop of `purge_old_files`; it fails at the front of an empty vector. -/
def purgeLoop (maxFiles : Int) : List Text → Directory → Option Directory
  | [], files => if (0 : Int) > maxFiles then none else some files
  | name :: logs, files =>
    if (logs.length + 1 : Int) > maxFiles then purgeLoop maxFiles logs (files.erase name)
    else some files

def purgeOldFiles (config : LogConfig) (files : Directory) : Option Directory :=
  purgeLoop config.maxFiles ((files.keys.filter (isLog config)).insertionSort (· ≤ ·)) files

/-- `openLogFile` reads the clock again. `rename` throws if there is nothing to rename. -/
def rotateIfNeeded (config : LogConfig) (s : LogFiles) (today reopened : Date) : Option LogFiles :=
  if today ≠ s.currentDate then
    let opened := openLogFile config s.files reopened
    (purgeOldFiles config opened.files).map fun files => { opened with files := files }
  else if s.bytesWritten ≥ maxBytes config then
    (s.files.lookup (path config s.currentDate)).map fun content =>
      openLogFile config
        ((s.files.erase (path config s.currentDate)).insert (rotated config s.currentDate) content)
        reopened
  else some s

/-- What is written to a file that has been removed is in no directory. -/
def writeRecord (config : LogConfig) (s : LogFiles) (line : List UInt8) : LogFiles :=
  { s with
    files :=
      match s.files.lookup (path config s.currentDate) with
      | some content => s.files.insert (path config s.currentDate) (content ++ [.line line])
      | none => s.files
    bytesWritten := s.bytesWritten + line.length }

/-- A record to write: the two readings of the clock, and the line it is printed as. -/
structure Write where
  today : Date
  reopened : Date
  line : List UInt8

def write (config : LogConfig) (s : LogFiles) (w : Write) : Option LogFiles :=
  (rotateIfNeeded config s w.today w.reopened).map fun rotated => writeRecord config rotated w.line

theorem append_lt_append {α : Type} [LinearOrder α] {xs ys : List α}
    (hlength : xs.length = ys.length) (h : xs < ys) (us vs : List α) : xs ++ us < ys ++ vs := by
  induction xs generalizing ys with
  | nil =>
    cases ys with
    | nil => exact absurd h (lt_irrefl _)
    | cons y ys => simp at hlength
  | cons x xs ih =>
    cases ys with
    | nil => simp at hlength
    | cons y ys =>
      rw [List.cons_append, List.cons_append, List.cons_lt_cons_iff] at *
      rcases h with h | ⟨rfl, h⟩
      · exact .inl h
      · exact .inr ⟨rfl, ih (by simpa using hlength) h⟩

theorem append_left_mono {α : Type} [LinearOrder α] {xs ys : List α} (h : xs ≤ ys) (us : List α) :
    us ++ xs ≤ us ++ ys := by
  induction us with
  | nil => exact h
  | cons u us ih => exact List.cons_le_cons u ih

/-- Dates of one length sort as the names made from them. -/
theorem path_mono (config : LogConfig) {date date' : Date} (h : date.text ≤ date'.text) :
    path config date ≤ path config date' := by
  have htail : date.text ++ dotLog ≤ date'.text ++ dotLog := by
    rcases h.eq_or_lt with heq | hlt
    · rw [heq]
    · exact (append_lt_append (date.length.trans date'.length.symm) hlt _ _).le
  simpa [path] using append_left_mono (List.cons_le_cons '_' htail) config.filenameBase

theorem path_inj {config : LogConfig} {date date' : Date} (h : path config date = path config date') :
    date = date' := by
  cases date
  cases date'
  simpa [path] using h

theorem extension_append {stem ext : Text} (hstem : stem ≠ []) (hext : '.' ∉ ext) :
    extension (stem ++ '.' :: ext) = '.' :: ext := by
  have hafter : ((stem ++ '.' :: ext).reverse.takeWhile (· ≠ '.')).reverse = ext := by
    rw [List.reverse_append, List.reverse_cons, List.append_assoc, List.takeWhile_append_of_pos]
    · simp
    · intro c hc
      simp only [List.mem_reverse] at hc
      have hne : c ≠ '.' := fun he => hext (he ▸ hc)
      simpa using hne
  have hlength : 0 < stem.length := List.length_pos_iff.mpr hstem
  rw [extension, hafter, if_neg]
  simp only [List.length_append, List.length_cons]
  omega

theorem isLog_path (config : LogConfig) (date : Date) : isLog config (path config date) = true := by
  have hext : extension (path config date) = dotLog :=
    extension_append (by simp) (by decide)
  have hbegins : config.filenameBase ++ ['_'] <+: path config date :=
    ⟨date.text ++ dotLog, by simp [path]⟩
  simp [isLog, hext, hbegins]

/-- A rotated file is none of the files that are purged. -/
theorem isLog_rotated (config : LogConfig) (date : Date) :
    isLog config (rotated config date) = false := by
  have hext : extension (rotated config date) = ['.', '1'] :=
    extension_append (by simp [path]) (by decide)
  simp [isLog, hext, dotLog]

theorem rotated_ne_path (config : LogConfig) (date date' : Date) :
    rotated config date ≠ path config date' := by
  intro h
  have hlog := isLog_path config date'
  rw [← h, isLog_rotated] at hlog
  cases hlog

theorem purgeLoop_eq {maxFiles : Int} (h : 0 ≤ maxFiles) (logs : List Text) (files : Directory) :
    purgeLoop maxFiles logs files =
      some (eraseAll (logs.take (logs.length - maxFiles.toNat)) files) := by
  induction logs generalizing files with
  | nil => simp [purgeLoop, eraseAll, Int.not_lt.mpr h]
  | cons name logs ih =>
    rw [purgeLoop]
    split
    · have hcount : (name :: logs).length - maxFiles.toNat = logs.length - maxFiles.toNat + 1 := by
        rw [List.length_cons]
        omega
      rw [ih, hcount, List.take_succ_cons, eraseAll_cons]
    · have hcount : (name :: logs).length - maxFiles.toNat = 0 := by
        rw [List.length_cons]
        omega
      rw [hcount, List.take_zero]
      rfl

end SessionLogFiles
