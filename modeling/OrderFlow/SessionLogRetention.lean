import OrderFlow.GuardedRuns
import OrderFlow.SessionLogFiles

/-!
# What the logger keeps on disk

Purging keeps the files of the newest names and nothing but them; renamed files it
never sees. Over a run whose clock does not go back, the file of the day and the one
renamed last hold the end of what the day has written, in order.
-/
namespace SessionLogFiles

open Retention

def logs (config : LogConfig) (files : Directory) : List Text := files.keys.filter (isLog config)

theorem mem_logs {config : LogConfig} {files : Directory} {name : Text} :
    name ∈ logs config files ↔ name ∈ files ∧ isLog config name = true := by
  rw [logs, List.mem_filter, ← AList.mem_keys]

/-- The names a purge removes. -/
def purged (config : LogConfig) (files : Directory) : List Text :=
  ((logs config files).insertionSort (· ≤ ·)).take
    ((logs config files).length - config.maxFiles.toNat)

theorem purgeOldFiles_eq {config : LogConfig} (h : 0 ≤ config.maxFiles) (files : Directory) :
    purgeOldFiles config files = some (eraseAll (purged config files) files) := by
  rw [purgeOldFiles, purgeLoop_eq h, List.length_insertionSort]
  rfl

theorem mem_purged {config : LogConfig} {files : Directory} {name : Text}
    (h : name ∈ purged config files) : name ∈ logs config files :=
  (List.mem_insertionSort (· ≤ ·)).mp (List.mem_of_mem_take h)

theorem nodup_sorted (config : LogConfig) (files : Directory) :
    ((logs config files).insertionSort (· ≤ ·)).Nodup :=
  (List.perm_insertionSort _ _).nodup_iff.mpr (files.keys_nodup.filter _)

/-- The newest log is kept if any is. -/
theorem top_notMem_purged {config : LogConfig} (hfiles : 1 ≤ config.maxFiles) {files : Directory}
    {top : Text} (htop : ∀ name ∈ logs config files, name ≤ top) : top ∉ purged config files := by
  intro hmem
  have hsome : 0 < (logs config files).length := List.length_pos_of_mem (mem_purged hmem)
  refine max_notMem_take (List.pairwise_insertionSort (· ≤ ·) _) (nodup_sorted config files) ?_ ?_
    hmem
  · rw [List.length_insertionSort]
    omega
  · intro name hname
    exact htop name ((List.mem_insertionSort (· ≤ ·)).mp hname)

/-- A purge keeps the newest `max_files` logs of any directory as they are, and touches no
other file. -/
theorem purge_keeps_newest (config : LogConfig) (h : 0 ≤ config.maxFiles) (files : Directory) :
    ∃ files', purgeOldFiles config files = some files' ∧
      (logs config files').length = min (logs config files).length config.maxFiles.toNat ∧
      (∀ name, isLog config name = false → files'.lookup name = files.lookup name) ∧
      (∀ name ∈ files', files'.lookup name = files.lookup name) ∧
      ∀ gone ∈ logs config files, gone ∉ files' → ∀ kept ∈ logs config files', gone < kept := by
  have hsorted := List.pairwise_insertionSort (· ≤ ·) (logs config files)
  have hperm : ((logs config files).insertionSort (· ≤ ·)).Perm (logs config files) :=
    List.perm_insertionSort _ _
  have hkept := filter_keys_eraseAll hperm ((logs config files).length - config.maxFiles.toNat)
  refine ⟨_, purgeOldFiles_eq h files, ?_, ?_, ?_, ?_⟩
  · rw [logs, purged, hkept.length_eq, List.length_drop, List.length_insertionSort]
    omega
  · intro name hname
    rw [lookup_eraseAll, if_neg]
    intro hmem
    have hlog := (mem_logs.mp (mem_purged hmem)).2
    rw [hname] at hlog
    cases hlog
  · intro name hname
    rw [lookup_eraseAll, if_neg (mem_eraseAll.mp hname).2]
  · intro gone hgone hremoved kept hmem
    have hpurged : gone ∈ purged config files := by
      by_contra hstays
      exact hremoved (mem_eraseAll.mpr ⟨(mem_logs.mp hgone).1, hstays⟩)
    have hdrop := hkept.mem_iff.mp hmem
    have hle : gone ≤ kept := by
      rw [← List.take_append_drop ((logs config files).length - config.maxFiles.toNat)
        ((logs config files).insertionSort (· ≤ ·)), List.pairwise_append] at hsorted
      exact hsorted.2.2 gone hpurged kept hdrop
    refine lt_of_le_of_ne hle ?_
    rintro rfl
    exact hremoved (mem_logs.mp hmem).1

/-- Files that are full from the first, of which one is kept. -/
def oneFile : LogConfig := ⟨['o', 'f', 'e'], 0, 1⟩

def friday : Date := ⟨['2', '0', '2', '6', '-', '0', '6', '-', '0', '5'], rfl⟩

def saturday : Date := ⟨['2', '0', '2', '6', '-', '0', '6', '-', '0', '6'], rfl⟩

/-- What an earlier session has left. -/
def onDisk : Directory := (∅ : Directory).insert (path oneFile friday) [.line [65]]

theorem purge_keeps_newest_onDisk :
    ∃ files', purgeOldFiles oneFile (onDisk.insert (path oneFile saturday) []) = some files' ∧
      (logs oneFile files').length = 1 := by
  obtain ⟨files', hpurge, hcount, -⟩ :=
    purge_keeps_newest oneFile (by decide) (onDisk.insert (path oneFile saturday) [])
  exact ⟨files', hpurge, hcount.trans (by decide)⟩

theorem purgeOldFiles_none {config : LogConfig} (h : config.maxFiles < 0) (files : Directory) :
    purgeOldFiles config files = none := by
  have hloop : ∀ (logs : List Text) (files : Directory),
      purgeLoop config.maxFiles logs files = none := by
    intro logs
    induction logs with
    | nil =>
      intro files
      rw [purgeLoop, if_pos h]
    | cons name logs ih =>
      intro files
      rw [purgeLoop, if_pos (by omega), ih]
  exact hloop _ files

/-- A name that does not begin as the logs do stands for the same file, and a file whose
name is no log's is still there. -/
def Spares (config : LogConfig) (files files' : Directory) : Prop :=
  ∀ name, (¬ config.filenameBase ++ ['_'] <+: name → files'.lookup name = files.lookup name) ∧
    (isLog config name = false → name ∈ files → name ∈ files')

theorem path_begins (config : LogConfig) (date : Date) :
    config.filenameBase ++ ['_'] <+: path config date :=
  ⟨date.text ++ dotLog, by simp [path]⟩

theorem rotated_begins (config : LogConfig) (date : Date) :
    config.filenameBase ++ ['_'] <+: rotated config date :=
  (path_begins config date).trans (List.prefix_append _ _)

theorem Spares.trans {config : LogConfig} {files files' files'' : Directory}
    (h : Spares config files files') (h' : Spares config files' files'') :
    Spares config files files'' := fun name =>
  ⟨fun hname => ((h' name).1 hname).trans ((h name).1 hname),
    fun hlog hmem => (h' name).2 hlog ((h name).2 hlog hmem)⟩

theorem spares_insert {config : LogConfig} (files : Directory) {name : Text}
    (hname : config.filenameBase ++ ['_'] <+: name) (content : List Entry) :
    Spares config files (files.insert name content) := by
  intro other
  refine ⟨fun hother => AList.lookup_insert_ne ?_, fun _ hmem => ?_⟩
  · rintro rfl
    exact hother hname
  · exact (AList.mem_insert _).mpr (.inr hmem)

theorem spares_erase {config : LogConfig} (files : Directory) {name : Text}
    (hlog : isLog config name = true) : Spares config files (files.erase name) := by
  have hbegins : config.filenameBase ++ ['_'] <+: name := by
    simp only [isLog, Bool.and_eq_true, decide_eq_true_eq] at hlog
    exact hlog.1
  intro other
  refine ⟨fun hother => AList.lookup_erase_ne ?_, fun hnot hmem => AList.mem_erase.mpr ⟨?_, hmem⟩⟩
  · rintro rfl
    exact hother hbegins
  · rintro rfl
    rw [hlog] at hnot
    cases hnot

theorem spares_eraseAll {config : LogConfig} {names : List Text}
    (hlogs : ∀ name ∈ names, isLog config name = true) (files : Directory) :
    Spares config files (eraseAll names files) := by
  induction names generalizing files with
  | nil => exact fun name => ⟨fun _ => rfl, fun _ hmem => hmem⟩
  | cons name names ih =>
    rw [eraseAll_cons]
    exact (spares_erase files (hlogs name List.mem_cons_self)).trans
      (ih (fun other hmem => hlogs other (List.mem_cons_of_mem name hmem)) _)

theorem spares_rotate {config : LogConfig} {s s' : LogFiles} {today reopened : Date}
    (h : rotateIfNeeded config s today reopened = some s') : Spares config s.files s'.files := by
  rw [rotateIfNeeded] at h
  split at h
  · obtain ⟨files, hpurge, rfl⟩ := Option.map_eq_some_iff.mp h
    by_cases hcount : 0 ≤ config.maxFiles
    · rw [purgeOldFiles_eq hcount] at hpurge
      cases hpurge
      exact (spares_insert s.files (path_begins config reopened) _).trans
        (spares_eraseAll (fun name hmem => (mem_logs.mp (mem_purged hmem)).2) _)
    · rw [purgeOldFiles_none (by omega)] at hpurge
      cases hpurge
  · split at h
    · obtain ⟨content, -, rfl⟩ := Option.map_eq_some_iff.mp h
      exact ((spares_erase s.files (isLog_path config s.currentDate)).trans
        (spares_insert _ (rotated_begins config s.currentDate) content)).trans
          (spares_insert _ (path_begins config reopened) _)
    · cases h
      exact fun name => ⟨fun _ => rfl, fun _ hmem => hmem⟩

theorem spares_writeRecord (config : LogConfig) (s : LogFiles) (line : List UInt8) :
    Spares config s.files (writeRecord config s line).files := by
  simp only [writeRecord]
  split
  · exact spares_insert s.files (path_begins config s.currentDate) _
  · exact fun name => ⟨fun _ => rfl, fun _ hmem => hmem⟩

/-- Over every run that no exception ends, with any clock: what does not begin as a log does is
left as it was, and a file that has been renamed is never removed, by a purge or otherwise. -/
theorem run_spares {config : LogConfig} {files : Directory} {today : Date} {writes : List Write}
    {s : LogFiles}
    (hrun : writes.foldlM (SessionLogFiles.write config) (openLogFile config files today) = some s) :
    Spares config files s.files := by
  refine GuardedRuns.inv_of_foldlM (fun s => Spares config files s.files) ?_ ?_ hrun
  · intro s w s' h hwrite
    obtain ⟨rotated, hrotate, rfl⟩ := Option.map_eq_some_iff.mp hwrite
    exact (h.trans (spares_rotate hrotate)).trans (spares_writeRecord config rotated w.line)
  · exact spares_insert files (path_begins config today) _

def weekend : List Write :=
  [⟨friday, friday, [66]⟩, ⟨saturday, saturday, [67]⟩, ⟨saturday, saturday, [68]⟩]

theorem run_spares_weekend :
    ∃ s, weekend.foldlM (SessionLogFiles.write oneFile) (openLogFile oneFile onDisk friday) =
        some s ∧ Spares oneFile onDisk s.files := by
  have hreturns :
      (weekend.foldlM (SessionLogFiles.write oneFile) (openLogFile oneFile onDisk friday)).isSome =
        true := by decide
  obtain ⟨s, hs⟩ := Option.isSome_iff_exists.mp hreturns
  exact ⟨s, hs, run_spares hs⟩

/-- The lines written on the day the file was opened for, after those it held, and the
entries of its files: those renamed, newest first, and the one open now. -/
structure Day where
  lines : List (List UInt8)
  earlier : List (List Entry)
  now : List Entry

structure Traced where
  files : LogFiles
  day : Day

def linesOf (entries : List Entry) : List (List UInt8) :=
  entries.filterMap fun
    | .header _ => none
    | .line bytes => some bytes

def lineBytes (entries : List Entry) : Nat := (linesOf entries).flatten.length

def held (config : LogConfig) (files : Directory) (date : Date) : List Entry :=
  (files.lookup (path config date)).getD []

def Day.opened (held : List Entry) (date : Date) : Day := ⟨linesOf held, [], held ++ [.header date]⟩

def Day.renamed (day : Day) (date : Date) : Day := ⟨day.lines, day.now :: day.earlier, [.header date]⟩

def Day.wrote (day : Day) (line : List UInt8) : Day :=
  ⟨day.lines ++ [line], day.earlier, day.now ++ [.line line]⟩

def Traced.rotate (config : LogConfig) (t : Traced) (today reopened : Date) : Option Traced :=
  (rotateIfNeeded config t.files today reopened).map fun files =>
    ⟨files,
      if today = t.files.currentDate ∧ t.files.bytesWritten < maxBytes config then t.day
      else if today = t.files.currentDate ∧ reopened = t.files.currentDate then
        t.day.renamed reopened
      else .opened (held config t.files.files reopened) reopened⟩

def Traced.write (config : LogConfig) (t : Traced) (w : Write) : Option Traced :=
  (t.rotate config w.today w.reopened).map fun t =>
    ⟨writeRecord config t.files w.line, t.day.wrote w.line⟩

theorem Traced.write_files (config : LogConfig) (t : Traced) (w : Write) :
    (t.write config w).map (·.files) = SessionLogFiles.write config t.files w := by
  simp only [Traced.write, Traced.rotate, SessionLogFiles.write, Option.map_map]
  rfl

/-- The files of a traced run are those of the run. -/
theorem Traced.run_files (config : LogConfig) (t : Traced) (writes : List Write) :
    (writes.foldlM (Traced.write config) t).map (·.files) =
      writes.foldlM (SessionLogFiles.write config) t.files := by
  induction writes generalizing t with
  | nil => rfl
  | cons w writes ih =>
    rw [List.foldlM_cons, List.foldlM_cons, ← Traced.write_files]
    cases t.write config w with
    | none => rfl
    | some t' => exact ih t'

/-- What the constructor opens. -/
def start (config : LogConfig) (files : Directory) (today : Date) : Traced :=
  ⟨openLogFile config files today, .opened (held config files today) today⟩

theorem linesOf_append (xs ys : List Entry) : linesOf (xs ++ ys) = linesOf xs ++ linesOf ys :=
  List.filterMap_append

/-- What has been appended to the open file since it was opened. -/
def GrownBy (date : Date) (bytes : Nat) (entries : List Entry) : Prop :=
  ∃ (before : List Entry) (lines : List (List UInt8)),
    entries = before ++ .header date :: lines.map .line ∧ lines.flatten.length = bytes

/-- `found` is the directory at the start. -/
structure Kept (config : LogConfig) (longest : Nat) (found : Directory) (t : Traced) : Prop where
  now : t.files.files.lookup (path config t.files.currentDate) = some t.day.now
  untouched : ∀ date, t.files.currentDate.text ≤ date.text →
    (date = t.files.currentDate → t.day.earlier = []) →
      t.files.files.lookup (rotated config date) = found.lookup (rotated config date)
  previous : ∀ entries, t.day.earlier.head? = some entries →
    t.files.files.lookup (rotated config t.files.currentDate) = some entries
  complete : linesOf (t.day.earlier.reverse.flatten ++ t.day.now) = t.day.lines
  full : ∀ entries ∈ t.day.earlier, maxBytes config ≤ lineBytes entries
  grown : GrownBy t.files.currentDate t.files.bytesWritten t.day.now
  small : t.files.bytesWritten ≤ maxBytes config + longest
  newest : ∀ name ∈ logs config t.files.files, name ≤ path config t.files.currentDate

theorem linesOf_lines (lines : List (List UInt8)) : linesOf (lines.map .line) = lines := by
  simp [linesOf, List.filterMap_map]

/-- A file is at least as long as it has grown. -/
theorem bytes_le_of_grownBy {date : Date} {bytes : Nat} {entries : List Entry}
    (h : GrownBy date bytes entries) : bytes ≤ lineBytes entries := by
  obtain ⟨before, lines, rfl, rfl⟩ := h
  have hlines : linesOf (before ++ .header date :: lines.map .line) = linesOf before ++ lines := by
    rw [linesOf_append]
    exact congrArg (linesOf before ++ ·) (linesOf_lines lines)
  rw [lineBytes, hlines, List.flatten_append, List.length_append]
  omega

theorem grownBy_wrote {date : Date} {bytes : Nat} {entries : List Entry}
    (h : GrownBy date bytes entries) (line : List UInt8) :
    GrownBy date (bytes + line.length) (entries ++ [.line line]) := by
  obtain ⟨before, lines, rfl, rfl⟩ := h
  exact ⟨before, lines ++ [line], by simp, by simp⟩

theorem lookup_rotated_openLogFile (config : LogConfig) (files : Directory) (today date : Date) :
    (openLogFile config files today).files.lookup (rotated config date) =
      files.lookup (rotated config date) :=
  AList.lookup_insert_ne (rotated_ne_path config date today)

theorem logs_openLogFile {config : LogConfig} {files : Directory} {today : Date} {name : Text}
    (h : name ∈ logs config (openLogFile config files today).files) :
    name = path config today ∨ name ∈ logs config files := by
  obtain ⟨hmem, hlog⟩ := mem_logs.mp h
  rcases (AList.mem_insert _).mp hmem with heq | hmem
  · exact .inl heq
  · exact .inr (mem_logs.mpr ⟨hmem, hlog⟩)

/-- A file opened for a day that none is named after a later one. -/
theorem kept_opened {config : LogConfig} (longest : Nat) {files found : Directory} {today : Date}
    (huntouched : ∀ date, today.text ≤ date.text →
      files.lookup (rotated config date) = found.lookup (rotated config date))
    (hnewest : ∀ name ∈ logs config files, name ≤ path config today) :
    Kept config longest found
      ⟨openLogFile config files today, .opened (held config files today) today⟩ where
  now := AList.lookup_insert _
  untouched := fun date hdate _ =>
    (lookup_rotated_openLogFile config files today date).trans (huntouched date hdate)
  previous := by
    intro entries h
    cases h
  complete := by simp [Day.opened, linesOf]
  full := by
    intro entries h
    cases h
  grown := ⟨held config files today, [], rfl, rfl⟩
  small := Nat.zero_le _
  newest := by
    intro name hname
    rcases logs_openLogFile hname with rfl | hmem
    · exact le_refl _
    · exact hnewest name hmem

theorem rotated_notMem_purged (config : LogConfig) (files : Directory) (date : Date) :
    rotated config date ∉ purged config files := by
  intro hmem
  have hlog := (mem_logs.mp (mem_purged hmem)).2
  rw [isLog_rotated] at hlog
  cases hlog

/-- A purge leaves the files of the day. -/
theorem kept_purged {config : LogConfig} {longest : Nat} {found : Directory}
    (hfiles : 1 ≤ config.maxFiles) {t : Traced} (h : Kept config longest found t) :
    Kept config longest found
      ⟨{ t.files with files := eraseAll (purged config t.files.files) t.files.files }, t.day⟩ where
  now := by
    have hstays := top_notMem_purged hfiles h.newest
    simpa only [lookup_eraseAll, if_neg hstays] using h.now
  untouched := by
    intro date hdate hearlier
    have hstays := rotated_notMem_purged config t.files.files date
    simpa only [lookup_eraseAll, if_neg hstays] using h.untouched date hdate hearlier
  previous := by
    intro entries hprevious
    have hstays := rotated_notMem_purged config t.files.files t.files.currentDate
    simpa only [lookup_eraseAll, if_neg hstays] using h.previous entries hprevious
  complete := h.complete
  full := h.full
  grown := h.grown
  small := h.small
  newest := by
    intro name hname
    obtain ⟨hmem, hlog⟩ := mem_logs.mp hname
    exact h.newest name (mem_logs.mpr ⟨(mem_eraseAll.mp hmem).1, hlog⟩)

/-- The directory in which a file has been renamed. -/
def renamed (config : LogConfig) (files : Directory) (date : Date) (content : List Entry) :
    Directory :=
  (files.erase (path config date)).insert (rotated config date) content

theorem logs_renamed {config : LogConfig} {files : Directory} {date : Date} {content : List Entry}
    {name : Text} (h : name ∈ logs config (renamed config files date content)) :
    name ∈ logs config files := by
  obtain ⟨hmem, hlog⟩ := mem_logs.mp h
  rcases (AList.mem_insert _).mp hmem with rfl | hmem
  · rw [isLog_rotated] at hlog
    cases hlog
  · exact mem_logs.mpr ⟨(AList.mem_erase.mp hmem).2, hlog⟩

theorem lookup_path_renamed (config : LogConfig) (files : Directory) (date date' : Date)
    (content : List Entry) :
    (renamed config files date content).lookup (path config date') =
      if date' = date then none else files.lookup (path config date') := by
  rw [renamed, AList.lookup_insert_ne (rotated_ne_path config date date').symm]
  split
  case isTrue hdate => rw [hdate, AList.lookup_erase]
  case isFalse hdate => rw [AList.lookup_erase_ne fun heq => hdate (path_inj heq)]

theorem rotated_inj {config : LogConfig} {date date' : Date}
    (h : rotated config date = rotated config date') : date = date' :=
  path_inj (List.append_cancel_right h)

theorem lookup_rotated_renamed {config : LogConfig} (files : Directory) {date date' : Date}
    (content : List Entry) (hne : date' ≠ date) :
    (renamed config files date content).lookup (rotated config date') =
      files.lookup (rotated config date') := by
  rw [renamed, AList.lookup_insert_ne fun heq => hne (rotated_inj heq),
    AList.lookup_erase_ne (rotated_ne_path config date' date)]

/-- The full file becomes the previous one. -/
theorem kept_renamed {config : LogConfig} {longest : Nat} {found : Directory} {t : Traced}
    (h : Kept config longest found t) (hfull : maxBytes config ≤ t.files.bytesWritten) :
    Kept config longest found
      ⟨openLogFile config (renamed config t.files.files t.files.currentDate t.day.now)
        t.files.currentDate, t.day.renamed t.files.currentDate⟩ where
  now := by
    have hnone := lookup_path_renamed config t.files.files t.files.currentDate t.files.currentDate
      t.day.now
    rw [if_pos rfl] at hnone
    simp only [openLogFile, AList.lookup_insert, hnone, Option.getD_none, Day.renamed,
      List.nil_append]
  untouched := by
    intro date hdate hearlier
    have hne : date ≠ t.files.currentDate := by
      intro heq
      cases hearlier heq
    rw [lookup_rotated_openLogFile, lookup_rotated_renamed _ _ hne]
    exact h.untouched date hdate fun heq => absurd heq hne
  previous := by
    intro entries hprevious
    cases hprevious
    have hne := rotated_ne_path config t.files.currentDate t.files.currentDate
    simp only [openLogFile, AList.lookup_insert_ne hne, renamed, AList.lookup_insert]
  complete := by
    have hcomplete := h.complete
    simp only [linesOf_append] at hcomplete
    simp [Day.renamed, ← hcomplete, linesOf]
  full := by
    intro entries hmem
    rcases List.mem_cons.mp hmem with rfl | hmem
    · exact hfull.trans (bytes_le_of_grownBy h.grown)
    · exact h.full entries hmem
  grown := ⟨[], [], rfl, rfl⟩
  small := Nat.zero_le _
  newest := by
    intro name hname
    rcases logs_openLogFile hname with rfl | hmem
    · exact le_refl _
    · exact h.newest name (logs_renamed hmem)

theorem date_ext {date date' : Date} (h : date.text = date'.text) : date = date' := by
  cases date
  cases date'
  simpa using h

/-- Whatever the rotation does, there is room in the file it leaves. -/
theorem kept_rotate {config : LogConfig} {longest : Nat} {found : Directory}
    (hfiles : 1 ≤ config.maxFiles) {t : Traced} (h : Kept config longest found t)
    {today reopened : Date} (htoday : t.files.currentDate.text ≤ today.text)
    (hreopened : today.text ≤ reopened.text) :
    ∃ t', t.rotate config today reopened = some t' ∧ Kept config longest found t' ∧
      t'.files.bytesWritten ≤ maxBytes config ∧ t'.files.currentDate.text ≤ reopened.text := by
  have hlater : ∀ name ∈ logs config t.files.files, name ≤ path config reopened := fun name hname =>
    (h.newest name hname).trans (path_mono config (htoday.trans hreopened))
  by_cases hday : today = t.files.currentDate
  · subst hday
    by_cases hfull : maxBytes config ≤ t.files.bytesWritten
    · have hrotates : rotateIfNeeded config t.files t.files.currentDate reopened =
          some (openLogFile config (renamed config t.files.files t.files.currentDate t.day.now)
            reopened) := by
        simp [rotateIfNeeded, hfull, h.now, renamed]
      by_cases hsame : reopened = t.files.currentDate
      · subst hsame
        refine ⟨_, ?_, kept_renamed h hfull, Nat.zero_le _, htoday⟩
        simp [Traced.rotate, hrotates, Nat.not_lt.mpr hfull]
      · have hheld : held config (renamed config t.files.files t.files.currentDate t.day.now)
            reopened = held config t.files.files reopened := by
          rw [held, lookup_path_renamed, if_neg hsame, held]
        have hnewest : ∀ name ∈ logs config
            (renamed config t.files.files t.files.currentDate t.day.now),
            name ≤ path config reopened := fun name hname => hlater name (logs_renamed hname)
        have huntouched : ∀ date : Date, reopened.text ≤ date.text →
            (renamed config t.files.files t.files.currentDate t.day.now).lookup (rotated config date) =
              found.lookup (rotated config date) := by
          intro date hdate
          have hne : date ≠ t.files.currentDate := by
            rintro rfl
            exact hsame (date_ext (le_antisymm hdate hreopened))
          rw [lookup_rotated_renamed _ _ hne]
          exact h.untouched date (hreopened.trans hdate) fun heq => absurd heq hne
        have hopened := kept_opened longest huntouched hnewest
        rw [hheld] at hopened
        refine ⟨_, ?_, hopened, Nat.zero_le _, le_refl _⟩
        simp [Traced.rotate, hrotates, hsame, Nat.not_lt.mpr hfull]
    · refine ⟨t, ?_, h, by omega, hreopened⟩
      simp [Traced.rotate, rotateIfNeeded, hfull, Nat.lt_of_not_le hfull]
  · have huntouched : ∀ date : Date, reopened.text ≤ date.text →
        t.files.files.lookup (rotated config date) = found.lookup (rotated config date) := by
      intro date hdate
      have hne : date ≠ t.files.currentDate := by
        rintro rfl
        exact hday (date_ext (le_antisymm (hreopened.trans hdate) htoday))
      exact h.untouched date (htoday.trans (hreopened.trans hdate)) fun heq => absurd heq hne
    have hopened := kept_opened longest huntouched hlater
    refine ⟨_, ?_, kept_purged hfiles hopened, Nat.zero_le _, le_refl _⟩
    simp [Traced.rotate, rotateIfNeeded, hday, purgeOldFiles_eq (Int.le_of_lt hfiles), openLogFile]

theorem kept_wrote {config : LogConfig} {longest : Nat} {found : Directory} {t : Traced}
    (h : Kept config longest found t) (hroom : t.files.bytesWritten ≤ maxBytes config)
    {line : List UInt8} (hline : line.length ≤ longest) :
    Kept config longest found ⟨writeRecord config t.files line, t.day.wrote line⟩ where
  now := by
    have hnow := h.now
    simp only [writeRecord, hnow, AList.lookup_insert, Day.wrote]
  untouched := by
    intro date hdate hearlier
    have hnow := h.now
    have hne := rotated_ne_path config date t.files.currentDate
    simp only [writeRecord, hnow, AList.lookup_insert_ne hne]
    exact h.untouched date hdate hearlier
  previous := by
    intro entries hprevious
    have hnow := h.now
    have hne := rotated_ne_path config t.files.currentDate t.files.currentDate
    simp only [writeRecord, hnow, AList.lookup_insert_ne hne]
    exact h.previous entries hprevious
  complete := by
    have hcomplete := h.complete
    simp only [Day.wrote]
    rw [← List.append_assoc, linesOf_append, hcomplete]
    rfl
  full := h.full
  grown := grownBy_wrote h.grown line
  small := by
    simp only [writeRecord]
    omega
  newest := by
    intro name hname
    obtain ⟨hmem, hlog⟩ := mem_logs.mp hname
    have hnow := h.now
    simp only [writeRecord, hnow] at hmem
    rcases (AList.mem_insert _).mp hmem with rfl | hmem
    · exact le_refl _
    · exact h.newest name (mem_logs.mpr ⟨hmem, hlog⟩)

/-- The clock does not go back from `now` on, and no line is longer than `longest`. -/
def Ordered (longest : Nat) : Date → List Write → Prop
  | _, [] => True
  | now, w :: writes =>
    now.text ≤ w.today.text ∧ w.today.text ≤ w.reopened.text ∧ w.line.length ≤ longest ∧
      Ordered longest w.reopened writes

theorem kept_run {config : LogConfig} {longest : Nat} {found : Directory}
    (hfiles : 1 ≤ config.maxFiles) {now : Date} {writes : List Write}
    (hordered : Ordered longest now writes) {t : Traced} (h : Kept config longest found t)
    (hnow : t.files.currentDate.text ≤ now.text) :
    ∃ t', writes.foldlM (Traced.write config) t = some t' ∧ Kept config longest found t' := by
  induction writes generalizing t now with
  | nil => exact ⟨t, rfl, h⟩
  | cons w writes ih =>
    obtain ⟨htoday, hreopened, hline, hrest⟩ := hordered
    obtain ⟨t', hrotate, hkept, hroom, hdate⟩ := kept_rotate hfiles h (hnow.trans htoday) hreopened
    obtain ⟨t'', hrun, hkept''⟩ := ih hrest (kept_wrote hkept hroom hline) hdate
    refine ⟨t'', ?_, hkept''⟩
    rw [List.foldlM_cons, Traced.write, hrotate]
    exact hrun

/-- The file of the day and the one renamed last hold the end of the day. While nothing has been
renamed, the renamed file is the one found at the start, if any, and the file of the day has
everything; later the renamed file was full when it was renamed. -/
structure Latest (config : LogConfig) (longest : Nat) (found : Directory) (t : Traced) : Prop where
  present : t.files.files.lookup (path config t.files.currentDate) = some t.day.now
  whole : t.day.earlier = [] → linesOf t.day.now = t.day.lines ∧
    t.files.files.lookup (rotated config t.files.currentDate) =
      found.lookup (rotated config t.files.currentDate)
  renamed : ∀ previous older, t.day.earlier = previous :: older →
    t.files.files.lookup (rotated config t.files.currentDate) = some previous ∧
      maxBytes config ≤ lineBytes previous ∧
      t.day.lines = linesOf older.reverse.flatten ++ linesOf previous ++ linesOf t.day.now
  grown : ∃ bytes, GrownBy t.files.currentDate bytes t.day.now ∧ bytes ≤ maxBytes config + longest
  newest : ∀ name ∈ logs config t.files.files, name ≤ path config t.files.currentDate

theorem latest_of_kept {config : LogConfig} {longest : Nat} {found : Directory} {t : Traced}
    (h : Kept config longest found t) : Latest config longest found t where
  present := h.now
  whole := by
    intro hearlier
    have hcomplete := h.complete
    rw [hearlier] at hcomplete
    exact ⟨hcomplete, h.untouched t.files.currentDate (le_refl _) fun _ => hearlier⟩
  renamed := by
    intro previous older hearlier
    have hcomplete := h.complete
    rw [hearlier] at hcomplete
    refine ⟨h.previous previous (by rw [hearlier]; rfl),
      h.full previous (by rw [hearlier]; exact List.mem_cons_self), ?_⟩
    rw [← hcomplete, List.reverse_cons, List.flatten_append, linesOf_append, linesOf_append]
    simp
  grown := ⟨t.files.bytesWritten, h.grown, h.small⟩
  newest := h.newest

/-- From the constructor on, with at least one file to keep, a clock that does not go back and
no file of a later day. -/
theorem run_latest {config : LogConfig} (hfiles : 1 ≤ config.maxFiles) {files : Directory}
    {today : Date} (hnewest : ∀ name ∈ logs config files, name ≤ path config today) {longest : Nat}
    {writes : List Write} (hordered : Ordered longest today writes) :
    ∃ t, writes.foldlM (Traced.write config) (start config files today) = some t ∧
      Latest config longest files t := by
  obtain ⟨t, hrun, hkept⟩ :=
    kept_run hfiles hordered (kept_opened longest (fun _ _ => rfl) hnewest) (le_refl today.text)
  exact ⟨t, hrun, latest_of_kept hkept⟩

theorem run_latest_weekend :
    ∃ t, weekend.foldlM (Traced.write oneFile) (start oneFile onDisk friday) = some t ∧
      Latest oneFile 1 onDisk t :=
  run_latest (by decide) (by decide)
    ⟨by decide, by decide, by decide, by decide, by decide, by decide, by decide, by decide,
      by decide, trivial⟩

end SessionLogFiles
