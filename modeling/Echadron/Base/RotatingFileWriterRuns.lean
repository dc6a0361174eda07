import Echadron.Base.RotatingFileWriter
import Mathlib.Algebra.BigOperators.Group.List.Lemmas
import Mathlib.Algebra.Order.BigOperators.Group.List
import Mathlib.Algebra.Order.Group.Nat

namespace Echadron.Base
open Lib List Option

variable {Text : Type} {o : RotatingFileWriterOptions Text}

/-! What the writer itself has brought. -/

def LogEntry.isEarlier : LogEntry Text → Bool
  | .earlier _ => true
  | _ => false

def ours (entries : List (LogEntry Text)) : List (LogEntry Text) := entries.filter fun entry => !entry.isEarlier

theorem ours_append (a b : List (LogEntry Text)) : ours (a ++ b) = ours a ++ ours b := filter_append ..

theorem lineNumbers_append (a b : List (LogEntry Text)) : lineNumbers (a ++ b) = lineNumbers a ++ lineNumbers b :=
  filterMap_append

theorem accountedFor_append (byteLength : Text → Nat) (a b : List (LogEntry Text)) :
    accountedFor byteLength (a ++ b) = accountedFor byteLength a + accountedFor byteLength b := by
  rw [accountedFor, map_append, sum_append]
  rfl

theorem bytesOf_append (byteLength : Text → Nat) (a b : List (LogEntry Text)) :
    bytesOf byteLength (a ++ b) = bytesOf byteLength a + bytesOf byteLength b := by
  rw [bytesOf, map_append, sum_append]
  rfl

theorem lineNumbers_ours (entries : List (LogEntry Text)) : lineNumbers (ours entries) = lineNumbers entries := by
  induction entries with
  | nil => rfl
  | cons entry entries ih =>
    cases entry with
    | line number text => exact congrArg (number :: ·) ih
    | notice count => exact ih
    | earlier text => exact ih

theorem accountedFor_ours (byteLength : Text → Nat) (entries : List (LogEntry Text)) :
    accountedFor byteLength (ours entries) = accountedFor byteLength entries := by
  induction entries with
  | nil => rfl
  | cons entry entries ih =>
    cases entry with
    | line number text => exact congrArg (accountsFor byteLength (.line number text) + ·) ih
    | notice count => exact congrArg (count + ·) ih
    | earlier text => exact ih.trans (zero_add _).symm

theorem mem_ours_line : .line number text ∈ ours entries ↔ .line number text ∈ entries := by
  rw [ours, mem_filter]
  exact and_iff_left rfl

theorem droppedNotice_bytes (count : Nat) : 0 < (droppedNotice count).utf8ByteSize := by
  have hprefix : 0 < (toString "... dropped ").utf8ByteSize := by decide
  rw [droppedNotice]
  simp only [String.utf8ByteSize_append]
  omega

theorem bytes_pos_of_accounts
    (h : entry.bytes byteLength = 0) : accountsFor byteLength entry = 0 := by
  cases entry with
  | line number text =>
    rw [accountsFor, if_neg]
    exact Nat.not_lt_of_le (Nat.le_of_eq h)
  | notice count => exact absurd h (ne_of_gt (droppedNotice_bytes count))
  | earlier text => rfl

theorem bytes_of_bytesOf
    (h : bytesOf byteLength entries = 0) : ∀ entry ∈ entries, entry.bytes byteLength = 0 := by
  intro entry hentry
  exact sum_eq_zero_iff.mp h _ (mem_map_of_mem hentry)

theorem accountedFor_of_bytes
    (h : bytesOf byteLength entries = 0) : accountedFor byteLength entries = 0 := by
  apply sum_eq_zero
  intro count hcount
  obtain ⟨entry, hentry, rfl⟩ := mem_map.mp hcount
  exact bytes_pos_of_accounts (bytes_of_bytesOf h entry hentry)

theorem filter_of_bytes {entries : List (LogEntry Text)}
    (h : bytesOf byteLength entries = 0) : entries.filter (fun entry => 0 < entry.bytes byteLength) = [] := by
  apply filter_eq_nil_iff.mpr
  intro entry hentry hpos
  exact absurd (bytes_of_bytesOf h entry hentry) (ne_of_gt (of_decide_eq_true hpos))

/-! The lines that are held somewhere, given how many were dropped since the last notice. -/

structure Told (o : RotatingFileWriterOptions Text) (enqueued : List Text) (dropped : Nat)
    (held : List (LogEntry Text)) : Prop where
  texts : ∀ number text, .line number text ∈ held → enqueued[number]? = some text
  ordered : (lineNumbers held).Pairwise (· < ·)
  accounted : (enqueued.filter fun text => 0 < o.byteLength text).length ≤ accountedFor o.byteLength held + dropped

theorem lineNumbers_lt {enqueued : List Text}
    (h : ∀ number text, .line number text ∈ entries → enqueued[number]? = some text) :
    ∀ number ∈ lineNumbers entries, number < enqueued.length := by
  intro number hnumber
  obtain ⟨entry, hentry, hline⟩ := mem_filterMap.mp hnumber
  cases entry with
  | line n text =>
    obtain rfl := some.inj hline
    exact (getElem?_lt (h n text hentry))
  | _ => cases hline

variable {enqueued : List Text} {dropped : Nat} {held : List (LogEntry Text)}

theorem Told.enqueue (h : Told o enqueued dropped held) (text : Text) :
    Told o (enqueued ++ [text]) dropped (held ++ [.line enqueued.length text]) where
  texts := by
    intro number text' hmem
    rcases mem_snoc.mp hmem with hold | hnew
    · have hget := h.texts number text' hold
      exact (getElem?_append_left (getElem?_lt hget)).trans hget
    · obtain ⟨rfl, rfl⟩ := LogEntry.line.inj hnew
      exact getElem?_concat_length
  ordered := by
    rw [lineNumbers_append]
    apply pairwise_append.mpr ⟨h.ordered, pairwise_singleton .., ?_⟩
    intro number hnumber last hlast
    obtain rfl := mem_singleton.mp hlast
    exact lineNumbers_lt h.texts number hnumber
  accounted := by
    have hold := h.accounted
    rw [filter_append, length_append, accountedFor_append]
    have hnew : ([text].filter fun text => 0 < o.byteLength text).length =
        accountedFor o.byteLength [.line enqueued.length text] := by
      rw [accountedFor, map_singleton, accountsFor, filter_singleton]
      by_cases hpos : 0 < o.byteLength text
      · rw [decide_eq_true hpos, if_pos hpos]
        rfl
      · rw [decide_eq_false hpos, if_neg hpos]
        rfl
    omega

theorem Told.without {a x b : List (LogEntry Text)} {more : Nat} (h : Told o enqueued dropped (a ++ x ++ b))
    (hmore : accountedFor o.byteLength x ≤ more) : Told o enqueued (dropped + more) (a ++ b) where
  texts := by
    intro number text hmem
    apply h.texts
    rw [append_assoc]
    rcases mem_append.mp hmem with ha | hb
    · exact mem_append_left _ ha
    · exact mem_append_right _ (mem_append_right _ hb)
  ordered := by
    have hsub : (a ++ b).Sublist (a ++ x ++ b) := (sublist_append_left a x).append (List.Sublist.refl b)
    exact List.Pairwise.sublist (hsub.filterMap lineNumber) h.ordered
  accounted := by
    have hold := h.accounted
    rw [accountedFor_append, accountedFor_append] at hold
    rw [accountedFor_append]
    omega

theorem Told.notice (h : Told o enqueued dropped held) : Told o enqueued 0 (held ++ [.notice dropped]) where
  texts := by
    intro number text hmem
    rcases mem_snoc.mp hmem with hold | hnew
    · exact h.texts number text hold
    · cases hnew
  ordered := by
    rw [lineNumbers_append]
    exact (append_nil (lineNumbers held)).symm ▸ h.ordered
  accounted := by
    rw [accountedFor_append]
    exact h.accounted

theorem renameFile_length (i : Nat) (disk : List (Option (List (LogEntry Text)))) :
    (renameFile i disk).1.length = disk.length := by
  fun_induction renameFile i disk with
  | case1 => rfl
  | case2 i file older ih => exact congrArg (· + 1) ih
  | case3 => rfl

theorem renameFile_split (i : Nat) (disk : List (Option (List (LogEntry Text)))) (hlt : i + 1 < disk.length) :
    ∃ newer, chronological disk = chronological (disk.drop (i + 2)) ++ (renameFile i disk).2 ++ newer ∧
      chronological (renameFile i disk).1 = chronological (disk.drop (i + 2)) ++ newer := by
  induction i generalizing disk with
  | zero =>
    match disk, hlt with
    | some file :: overwritten :: older, _ => exact ⟨file, rfl, by simp [renameFile, chronological]⟩
    | none :: next :: older, _ => exact ⟨next.getD [], by simp [renameFile, chronological]⟩
  | succ i ih =>
    match disk, hlt with
    | file :: older, hlt =>
      obtain ⟨newer, hbefore, hafter⟩ := ih older (Nat.lt_of_succ_lt_succ hlt)
      refine ⟨newer ++ file.getD [], ?_, ?_⟩
      · change chronological older ++ file.getD [] = _
        rw [hbefore, append_assoc]
        rfl
      · change chronological (renameFile i older).1 ++ file.getD [] = _
        rw [hafter, append_assoc]
        rfl

theorem renameFile_free (h : disk[i + 1]? = some none) : (renameFile i disk).2 = [] := by
  fun_induction renameFile i disk with
  | case1 file overwritten older =>
    obtain rfl : overwritten = none := some.inj h
    rfl
  | case2 i file older ih => exact ih h
  | case3 => rfl

theorem renameFile_leaves (h : i < disk.length)
    (hlt : i + 1 < disk.length) : (renameFile i disk).1[i]? = some none := by
  induction i generalizing disk with
  | zero =>
    match disk, hlt with
    | some file :: overwritten :: older, _ => rfl
    | none :: next :: older, _ => rfl
  | succ i ih =>
    match disk, hlt with
    | file :: older, hlt => exact ih (Nat.lt_of_succ_lt_succ h) (Nat.lt_of_succ_lt_succ hlt)

theorem renameFile_above (disk : List (Option (List (LogEntry Text)))) (h : i + 2 ≤ j) :
    (renameFile i disk).1[j]? = disk[j]? := by
  fun_induction renameFile i disk generalizing j with
  | case1 file overwritten older =>
    obtain ⟨k, rfl⟩ := Nat.exists_eq_add_of_le' h
    rfl
  | case2 i file older ih =>
    obtain ⟨k, rfl⟩ := Nat.exists_eq_add_of_le' (Nat.le_trans (Nat.le_add_left 1 (i + 2)) h)
    exact ih (Nat.le_of_succ_le_succ h)
  | case3 => rfl

theorem renameFile_mem
    (h : some file ∈ (renameFile i disk).1) : some file ∈ disk := by
  fun_induction renameFile i disk with
  | case1 f overwritten older =>
    rcases mem_cons.mp h with hnone | h
    · cases hnone
    · rcases mem_cons.mp h with hsame | h
      · exact hsame ▸ mem_cons_self ..
      · exact mem_cons_of_mem _ (mem_cons_of_mem _ h)
  | case2 i f older ih =>
    rcases mem_cons.mp h with rfl | h
    · exact mem_cons_self ..
    · exact mem_cons_of_mem _ (ih h)
  | case3 => exact h

theorem renameFile_head (i : Nat) (disk : List (Option (List (LogEntry Text)))) :
    (renameFile i disk).1.head? = disk.head? ∨ (renameFile i disk).1.head? = some none := by
  fun_induction renameFile i disk with
  | case1 => exact .inr rfl
  | case2 => exact .inl rfl
  | case3 => exact .inl rfl

theorem chronological_set (i : Nat) (disk : List (Option (List (LogEntry Text)))) :
    ∃ older newer, chronological disk = older ++ (disk[i]?.getD none).getD [] ++ newer ∧
      chronological (disk.set i none) = older ++ newer := by
  induction disk generalizing i with
  | nil => exact ⟨[], [], rfl, rfl⟩
  | cons file older ih =>
    cases i with
    | zero =>
      refine ⟨chronological older, [], ?_, ?_⟩
      · exact (append_nil _).symm
      · rfl
    | succ i =>
      obtain ⟨older', newer, hbefore, hafter⟩ := ih i
      refine ⟨older', newer ++ file.getD [], ?_, ?_⟩
      · change chronological older ++ file.getD [] = _
        rw [hbefore, append_assoc]
        rfl
      · change chronological (older.set i none) ++ file.getD [] = _
        rw [hafter, append_assoc]

/-- A chunk that fits behind what the current file holds, or is a single longer line for an empty file. -/
def Packs (o : RotatingFileWriterOptions Text) (currentBytes : Nat) (chunk : List (LogEntry Text)) : Prop :=
  bytesOf o.byteLength chunk = 0 ∨ currentBytes + bytesOf o.byteLength chunk ≤ o.maxBytes ∨
    currentBytes = 0 ∧ ∃ entry, chunk.filter (fun entry => 0 < entry.bytes o.byteLength) = [entry]

def PackedWell (o : RotatingFileWriterOptions Text) (currentBytes : Nat) (chunk rest : List (LogEntry Text)) :
    Packed → Prop
  | .append => 0 < bytesOf o.byteLength chunk ∧ Packs o currentBytes chunk
  | .rotate => bytesOf o.byteLength chunk = 0
  | .through => bytesOf o.byteLength chunk = 0 ∧ rest = []

theorem bytesOf_singleton (byteLength : Text → Nat) (entry : LogEntry Text) :
    bytesOf byteLength [entry] = entry.bytes byteLength := add_zero _

theorem Packs.concat {line : LogEntry Text}
    (hfull : ¬ (0 < bytesOf o.byteLength chunk ∧ (o.maxBytes < bytesOf o.byteLength chunk + line.bytes o.byteLength ∨
      o.maxBytes < currentBytes + bytesOf o.byteLength chunk + line.bytes o.byteLength)))
    (hfresh : ¬ (bytesOf o.byteLength chunk = 0 ∧ 0 < currentBytes ∧
      o.maxBytes < currentBytes + line.bytes o.byteLength)) :
    Packs o currentBytes (chunk ++ [line]) := by
  rw [Packs, bytesOf_append, bytesOf_singleton]
  by_cases hzero : bytesOf o.byteLength chunk = 0
  · by_cases hempty : currentBytes = 0
    · by_cases hline : line.bytes o.byteLength = 0
      · exact .inl (by omega)
      · refine .inr (.inr ⟨hempty, line, ?_⟩)
        rw [filter_append, filter_of_bytes hzero, nil_append, filter_singleton,
          decide_eq_true (pos_of_ne_zero hline)]
        rfl
    · exact .inr (.inl (by omega))
  · exact .inr (.inl (by omega))

theorem appendLines_spec {currentBytes : Nat} {chunk rest : List (LogEntry Text)} (h : Packs o currentBytes chunk) :
    let packed := appendLines o currentBytes chunk rest
    packed.1 ++ packed.2.1 = chunk ++ rest ∧ PackedWell o currentBytes packed.1 packed.2.1 packed.2.2 := by
  induction rest generalizing chunk with
  | nil =>
    refine ⟨rfl, ?_⟩
    change PackedWell o currentBytes chunk [] (if _ then _ else _)
    split
    · rename_i hpos
      exact ⟨hpos, h⟩
    · rename_i hzero
      exact ⟨Nat.eq_zero_of_not_pos hzero, rfl⟩
  | cons line rest ih =>
    rw [appendLines]
    split
    · rename_i hfull
      exact ⟨rfl, hfull.1, h⟩
    · rename_i hfull
      split
      · rename_i hrotates
        exact ⟨rfl, hrotates.1⟩
      · rename_i hfresh
        obtain ⟨hsame, hwell⟩ := ih (Packs.concat hfull hfresh)
        refine ⟨?_, hwell⟩
        rw [hsame, append_assoc]
        rfl

namespace RotatingFileWriter

variable {s s' : RotatingFileWriter Text} {d : LogDrain Text}

def inDrain (s : RotatingFileWriter Text) : List (LogEntry Text) :=
  match s.draining with
  | some d => d.chunk ++ d.rest
  | none => []

def unwritten (s : RotatingFileWriter Text) : List (LogEntry Text) := s.inDrain ++ s.pending

/-- The place `.files` is where no rename leads to, and `currentBytes` never says too little. -/
structure SoundDisk (o : RotatingFileWriterOptions Text) (disk : List (Option (List (LogEntry Text))))
    (currentBytes : Option Nat) : Prop where
  length : disk.length = o.files + 1
  last : ∀ file, disk[o.files]? = some (some file) → ours file = []
  fits : ∀ file, some file ∈ disk → Fits o file
  counted : ∀ c, currentBytes = some c → bytesOf o.byteLength ((disk.head?.getD none).getD []) ≤ c

def Waits (o : RotatingFileWriterOptions Text) (s : RotatingFileWriter Text) (d : LogDrain Text) : Prop :=
  match d.awaits with
  | .mkdir | .stat => bytesOf o.byteLength d.chunk = 0
  | .append => ∃ c, s.currentBytes = some c ∧ 0 < bytesOf o.byteLength d.chunk ∧ Packs o c d.chunk
  | .rename i => bytesOf o.byteLength d.chunk = 0 ∧ (i + 2 = o.files ∨ i + 2 < o.files ∧ s.disk[i + 1]? = some none)
  | .unlink => bytesOf o.byteLength d.chunk = 0 ∧ s.disk[0]? = some none
  | .syncDir => bytesOf o.byteLength d.chunk = 0 ∧ d.rest = []

def ToldWith (o : RotatingFileWriterOptions Text) (s : RotatingFileWriter Text) (entries : List (LogEntry Text)) : Prop :=
  Told o s.enqueued s.dropped (ours (s.rotatedOut ++ chronological s.disk) ++ ours entries)

structure Sound (o : RotatingFileWriterOptions Text) (s : RotatingFileWriter Text) : Prop where
  disk : SoundDisk o s.disk s.currentBytes
  told : s.ToldWith o s.unwritten
  idle : s.pending = [] → s.dropped = 0
  waits : ∀ d, s.draining = some d → s.Waits o d

theorem ToldWith.without {a x b : List (LogEntry Text)} (h : s.ToldWith o (a ++ x ++ b))
    (hnone : accountedFor o.byteLength x = 0) : s.ToldWith o (a ++ b) := by
  have hgiven : accountedFor o.byteLength (ours x) ≤ 0 := by
    rw [accountedFor_ours]
    exact le_of_eq hnone
  rw [ToldWith, ours_append a b, ← append_assoc]
  rw [ToldWith, ours_append (a ++ x), ours_append a x, ← append_assoc, ← append_assoc] at h
  exact h.without hgiven

theorem sound_goOn (hdisk : SoundDisk o s.disk s.currentBytes) (htold : s.ToldWith o (d.chunk ++ d.rest ++ s.pending))
    (hidle : s.pending = [] → s.dropped = 0) (hfiles : 2 ≤ o.files) {c : Nat} (hc : s.currentBytes = some c)
    (hchunk : bytesOf o.byteLength d.chunk = 0) : (s.goOn o d).Sound o := by
  obtain ⟨hsame, hwell⟩ := @appendLines_spec Text o c d.chunk d.rest (.inl hchunk)
  have hget : s.currentBytes.getD 0 = c := by rw [hc, getD_some]
  rw [goOn, hget]
  revert hsame hwell
  rcases appendLines o c d.chunk d.rest with ⟨chunk, rest, packed⟩
  intro hsame hwell
  rw [← hsame] at htold
  cases packed with
  | append =>
    exact
      { disk := hdisk
        told := htold
        idle := hidle
        waits := by
          intro d' hd'
          cases hd'
          exact ⟨c, hc, hwell⟩ }
  | rotate =>
    exact
      { disk := hdisk
        told := htold
        idle := hidle
        waits := by
          intro d' hd'
          cases hd'
          exact ⟨hwell, .inl (Nat.sub_add_cancel hfiles)⟩ }
  | through =>
    obtain ⟨hzero, hrest⟩ := hwell
    dsimp only
    split
    · exact
        { disk := hdisk
          told := by
            rw [hrest, append_nil] at htold
            exact @ToldWith.without Text o s [] chunk s.pending htold (accountedFor_of_bytes hzero)
          idle := hidle
          waits := by
            intro d' hd'
            cases hd' }
    · exact
        { disk := hdisk
          told := htold
          idle := hidle
          waits := by
            intro d' hd'
            cases hd'
            exact ⟨hzero, hrest⟩ }

theorem Sound.told_drain (h : s.Sound o) (hd : s.draining = some d) :
    s.ToldWith o (d.chunk ++ d.rest ++ s.pending) := by
  have htold := h.told
  rw [unwritten, inDrain, hd] at htold
  exact htold

theorem Sound.await (h : s.Sound o) (hd : s.draining = some d)
    (hwaits : s.Waits o { d with awaits := operation }) : (s.await d operation).Sound o where
  disk := h.disk
  told := by
    have htold := h.told_drain hd
    exact htold
  idle := h.idle
  waits := by
    intro d' hd'
    cases hd'
    exact hwaits

theorem Fits.append {c : Nat} (hfile : bytesOf o.byteLength file ≤ c)
    (hpos : 0 < bytesOf o.byteLength chunk) (h : Packs o c chunk) : Fits o (file ++ chunk) := by
  rcases h with hzero | hroom | ⟨hempty, entry, hentry⟩
  · exact absurd hzero (ne_of_gt hpos)
  · refine .inl ?_
    rw [bytesOf_append]
    exact Nat.le_trans (Nat.add_le_add_right hfile _) hroom
  · refine .inr ⟨entry, ?_⟩
    have hzero : bytesOf o.byteLength file = 0 := Nat.le_zero.mp (hempty ▸ hfile)
    rw [filter_append, filter_of_bytes hzero]
    exact hentry

theorem chronological_append (s : RotatingFileWriter Text) (chunk : List (LogEntry Text)) :
    chronological (s.appendFile chunk).disk = chronological s.disk ++ chunk := by
  rw [appendFile, currentFile]
  cases s.disk with
  | nil => rfl
  | cons file older => exact (append_assoc ..).symm

theorem SoundDisk.append (h : SoundDisk o s.disk s.currentBytes) (hc : s.currentBytes = some c)
    (hpos : 0 < bytesOf o.byteLength chunk) (hpacks : Packs o c chunk)
    (hfiles : 2 ≤ o.files) :
    SoundDisk o (s.appendFile chunk).disk (some (c + bytesOf o.byteLength chunk)) where
  length := by
    change s.disk.tail.length + 1 = _
    rw [length_tail, h.length]
    rfl
  last := by
    intro file hfile
    apply h.last file
    obtain ⟨k, hk⟩ := Nat.exists_eq_add_of_le' hfiles
    rw [hk] at hfile ⊢
    change s.disk.tail[k + 1]? = _ at hfile
    rw [getElem?_tail] at hfile
    exact hfile
  fits := by
    intro file hfile
    rcases mem_cons.mp hfile with hsame | htail
    · cases hsame
      exact Fits.append (h.counted c hc) hpos hpacks
    · exact h.fits file (mem_of_mem_tail htail)
  counted := by
    intro c' hc'
    cases hc'
    change bytesOf o.byteLength (s.currentFile ++ chunk) ≤ _
    rw [bytesOf_append]
    exact Nat.add_le_add_right (h.counted c hc) _

theorem Sound.append (h : s.Sound o) (hd : s.draining = some d) (hfiles : 2 ≤ o.files)
    (hawaits : d.awaits = .append) : (s.appendChunk o d).Sound o := by
  have hwaits := h.waits d hd
  rw [Waits, hawaits] at hwaits
  obtain ⟨c, hc, hpos, hpacks⟩ := hwaits
  have hget : s.currentBytes.getD 0 = c := by rw [hc, getD_some]
  have hdisk := h.disk.append hc hpos hpacks hfiles
  have htold : Told o s.enqueued s.dropped
      (ours (s.rotatedOut ++ chronological (s.appendFile d.chunk).disk) ++ ours (d.rest ++ s.pending)) := by
    have hbefore := h.told_drain hd
    rw [ToldWith, ← ours_append] at hbefore
    rw [← ours_append, chronological_append]
    simpa only [append_assoc] using hbefore
  rw [appendChunk, hget]
  split
  · exact
      { disk := hdisk
        told := htold
        idle := h.idle
        waits := by
          intro d' hd'
          cases hd'
          exact ⟨rfl, .inl (Nat.sub_add_cancel hfiles)⟩ }
  · exact @sound_goOn Text o { s.appendFile d.chunk with currentBytes := some (c + bytesOf o.byteLength d.chunk) }
      { d with chunk := [] } hdisk htold h.idle hfiles _ rfl rfl

section

variable (h : SoundDisk o s.disk s.currentBytes)
include h

theorem SoundDisk.ours_last : ours ((s.disk[o.files]?.getD none).getD []) = [] := by
  have hlt : o.files < s.disk.length := by
    rw [h.length]
    exact Nat.lt_succ_self _
  rw [getElem?_eq_getElem hlt]
  cases hfile : s.disk[o.files] with
  | none => rfl
  | some file => exact h.last file (by rw [getElem?_eq_getElem hlt, hfile])

theorem SoundDisk.rename (hi : i + 2 ≤ o.files) : SoundDisk o (renameFile i s.disk).1 s.currentBytes where
  length := (renameFile_length i s.disk).trans h.length
  last := by
    intro file hfile
    rw [renameFile_above s.disk hi] at hfile
    exact h.last file hfile
  fits := fun file hfile => h.fits file (renameFile_mem hfile)
  counted := by
    intro c hc
    rcases renameFile_head i s.disk with hsame | hnone
    · rw [hsame]
      exact h.counted c hc
    · rw [hnone]
      exact Nat.zero_le c

theorem ours_rename (hi : i + 2 = o.files ∨ i + 2 < o.files ∧ s.disk[i + 1]? = some none) :
    ours (s.rotatedOut ++ (renameFile i s.disk).2 ++ chronological (renameFile i s.disk).1) =
      ours (s.rotatedOut ++ chronological s.disk) := by
  have hlt : i + 1 < s.disk.length := by
    rw [h.length]
    omega
  obtain ⟨newer, hbefore, hafter⟩ := renameFile_split i s.disk hlt
  rw [hbefore, hafter]
  rcases hi with holdest | ⟨-, hfree⟩
  · have hlast := h.ours_last
    have hin : o.files < s.disk.length := by
      rw [h.length]
      exact Nat.lt_succ_self _
    have hnil : s.disk.drop (o.files + 1) = [] := drop_eq_nil_of_le (le_of_eq h.length)
    have holder : ours (chronological (s.disk.drop (i + 2))) = [] := by
      rw [holdest, drop_eq_getElem_cons hin, hnil]
      rw [getElem?_eq_getElem hin] at hlast
      exact hlast
    simp only [ours_append, holder, append_assoc, nil_append]
  · rw [renameFile_free hfree]
    simp only [append_nil]

end

theorem Sound.rename (h : s.Sound o) (hd : s.draining = some d) (hawaits : d.awaits = .rename i) :
    (s.succeed o d).Sound o := by
  have hwaits := h.waits d hd
  rw [Waits, hawaits] at hwaits
  obtain ⟨hchunk, hi⟩ := hwaits
  have hle : i + 2 ≤ o.files := by omega
  have hlength := h.disk.length
  have htold : Told o s.enqueued s.dropped
      (ours (s.rotatedOut ++ (renameFile i s.disk).2 ++ chronological (renameFile i s.disk).1) ++
        ours (d.chunk ++ d.rest ++ s.pending)) := by
    rw [ours_rename h.disk hi]
    exact h.told_drain hd
  rw [succeed, hawaits]
  cases i with
  | zero =>
    exact
      { disk := h.disk.rename hle
        told := htold
        idle := h.idle
        waits := by
          intro d' hd'
          cases hd'
          exact ⟨hchunk, renameFile_leaves (by omega) (by omega)⟩ }
  | succ i =>
    refine
      { disk := h.disk.rename hle
        told := htold
        idle := h.idle
        waits := ?_ }
    intro d' hd'
    cases hd'
    refine ⟨hchunk, .inr ⟨Nat.lt_of_succ_le hle, ?_⟩⟩
    exact renameFile_leaves (by omega) (by omega)

theorem SoundDisk.unlink (h : SoundDisk o s.disk s.currentBytes) (hcurrent : s.disk[0]? = some none)
    (hfiles : 2 ≤ o.files) : SoundDisk o (s.disk.set o.files none) (some 0) where
  length := (length_set ..).trans h.length
  last := by
    intro file hfile
    have hin : o.files < s.disk.length := by
      rw [h.length]
      exact Nat.lt_succ_self _
    rw [getElem?_set_self hin] at hfile
    cases some.inj hfile
  fits := by
    intro file hfile
    rcases mem_or_eq_of_mem_set hfile with hold | hnone
    · exact h.fits file hold
    · cases hnone
  counted := by
    intro c _
    have hsame : (s.disk.set o.files none).head? = s.disk.head? := by
      obtain ⟨k, hk⟩ := Nat.exists_eq_add_of_le' hfiles
      rw [hk]
      cases s.disk <;> rfl
    rw [hsame, head?_eq_getElem?, hcurrent]
    exact Nat.zero_le c

section

variable (h : s.Sound o) (hd : s.draining = some d) (hfiles : 2 ≤ o.files)
include h hd hfiles

theorem Sound.unlink (hawaits : d.awaits = .unlink) : (s.succeed o d).Sound o := by
  have hwaits := h.waits d hd
  rw [Waits, hawaits] at hwaits
  obtain ⟨hchunk, hcurrent⟩ := hwaits
  have htold : Told o s.enqueued s.dropped
      (ours (s.rotatedOut ++ (s.disk[o.files]?.getD none).getD [] ++ chronological (s.disk.set o.files none)) ++
        ours (d.chunk ++ d.rest ++ s.pending)) := by
    obtain ⟨older, newer, hbefore, hafter⟩ := chronological_set o.files s.disk
    have hsame : ours (s.rotatedOut ++ (s.disk[o.files]?.getD none).getD [] ++
        chronological (s.disk.set o.files none)) = ours (s.rotatedOut ++ chronological s.disk) := by
      rw [hbefore, hafter]
      simp only [ours_append, h.disk.ours_last, append_nil]
    rw [hsame]
    exact h.told_drain hd
  rw [succeed, hawaits]
  exact @sound_goOn Text o
    { s with
      disk := s.disk.set o.files none
      rotatedOut := s.rotatedOut ++ (s.disk[o.files]?.getD none).getD []
      currentBytes := some 0
      directorySynced := false } d (h.disk.unlink hcurrent hfiles) htold h.idle hfiles 0 rfl hchunk

theorem Sound.stat (hawaits : d.awaits = .stat) : (s.succeed o d).Sound o := by
  have hwaits := h.waits d hd
  rw [Waits, hawaits] at hwaits
  have hdisk : SoundDisk o s.disk (some (bytesOf o.byteLength s.currentFile)) :=
    { h.disk with counted := fun c hc => le_of_eq (some.inj hc) }
  rw [succeed, hawaits]
  exact @sound_goOn Text o { s with currentBytes := some (bytesOf o.byteLength s.currentFile) } d hdisk
    (h.told_drain hd) h.idle hfiles _ rfl hwaits

theorem Sound.succeed : (s.succeed o d).Sound o := by
  have hwaits := h.waits d hd
  rw [Waits] at hwaits
  cases hawaits : d.awaits with
  | mkdir =>
    rw [hawaits] at hwaits
    rw [RotatingFileWriter.succeed, hawaits]
    dsimp only
    split
    · rename_i hknown
      obtain ⟨c, hc⟩ := isSome_iff_exists.mp hknown
      exact sound_goOn h.disk (h.told_drain hd) h.idle hfiles hc hwaits
    · exact h.await hd hwaits
  | stat => exact h.stat hd hfiles hawaits
  | append =>
    rw [RotatingFileWriter.succeed, hawaits]
    exact h.append hd hfiles hawaits
  | rename i => exact h.rename hd hawaits
  | unlink => exact h.unlink hd hfiles hawaits
  | syncDir =>
    rw [hawaits] at hwaits
    obtain ⟨hchunk, hrest⟩ := hwaits
    rw [RotatingFileWriter.succeed, hawaits]
    exact
      { disk := h.disk
        told := by
          have htold := h.told_drain hd
          rw [hrest, append_nil] at htold
          exact @ToldWith.without Text o s [] d.chunk s.pending htold (accountedFor_of_bytes hchunk)
        idle := h.idle
        waits := by
          intro d' hd'
          cases hd' }

end

/-! Entries that are given up when there is no room: each is counted as one. -/

theorem accountedFor_le_length (h : ∀ entry ∈ entries, entry.isNotice = false) :
    accountedFor o.byteLength entries ≤ entries.length := by
  induction entries with
  | nil => exact le_refl _
  | cons entry entries ih =>
    obtain ⟨hentry, hentries⟩ := forall_mem_cons.mp h
    have hone : accountsFor o.byteLength entry ≤ 1 := by
      cases entry with
      | line number text =>
        rw [accountsFor]
        split <;> decide
      | notice count => cases hentry
      | earlier text => exact Nat.zero_le _
    change accountsFor o.byteLength entry + accountedFor o.byteLength entries ≤ _
    have hrest := ih hentries
    rw [length_cons]
    omega

theorem Sound.fail (h : s.Sound o) (hd : s.draining = some d) (hcalm : s.Undisturbed (.fails)) :
    (s.fail d).Sound o := by
  obtain ⟨hlines, hnotices⟩ := hcalm d hd
  have htold := h.told_drain hd
  rw [hlines] at htold
  generalize hoverflow : (d.lines ++ s.pending).length - pendingMax = overflow at hnotices
  have hlength : ((d.lines ++ s.pending).take overflow).length = overflow := by
    rw [length_take]
    omega
  have hpending : (s.fail d).pending = (d.lines ++ s.pending).drop overflow := by
    rw [RotatingFileWriter.fail, restorePending, ← hoverflow]
  have hdropped : (s.fail d).dropped = s.dropped + overflow := by
    rw [RotatingFileWriter.fail, restorePending, ← hoverflow]
  have hnone : (s.fail d).draining = none := by rw [RotatingFileWriter.fail, restorePending]
  have hdisk : (s.fail d).disk = s.disk := by rw [RotatingFileWriter.fail, restorePending]
  have hbytes : (s.fail d).currentBytes = s.currentBytes := by rw [RotatingFileWriter.fail, restorePending]
  have hrotated : (s.fail d).rotatedOut = s.rotatedOut := by rw [RotatingFileWriter.fail, restorePending]
  have henqueued : (s.fail d).enqueued = s.enqueued := by rw [RotatingFileWriter.fail, restorePending]
  refine ⟨?_, ?_, ?_, ?_⟩
  · rw [hdisk, hbytes]
    exact h.disk
  · rw [ToldWith, unwritten, inDrain, hnone, nil_append, hpending, hdropped, hdisk, hrotated, henqueued]
    apply @Told.without Text o s.enqueued s.dropped _ (ours ((d.lines ++ s.pending).take overflow))
    · rw [append_assoc, ← ours_append, take_append_drop]
      exact htold
    · rw [accountedFor_ours]
      exact le_trans (accountedFor_le_length hnotices) (le_of_eq hlength)
  · intro hempty
    rw [hpending, drop_eq_nil_iff, length_append] at hempty
    rw [length_append] at hoverflow
    have hpos : 0 < pendingMax := Nat.zero_lt_succ _
    have hnothing : s.pending = [] := eq_nil_of_length_eq_zero (by omega)
    rw [hdropped, h.idle hnothing]
    omega
  · intro d' hd'
    cases hnone.symm.trans hd'

theorem Sound.enqueue (h : s.Sound o) (hcalm : s.Undisturbed (.enqueue text)) : (s.enqueue text).Sound o := by
  rw [RotatingFileWriter.enqueue]
  split
  · exact h
  · rename_i hopen
    split
    · rename_i hfull
      have hhead := hcalm (Bool.eq_false_of_not_eq_true hopen) hfull
      obtain ⟨entry, rest, hpending⟩ : ∃ entry rest, s.pending = entry :: rest := by
        cases hpending : s.pending with
        | nil =>
          rw [hpending] at hfull
          exact absurd hfull (Nat.not_le_of_lt (Nat.zero_lt_succ _))
        | cons entry rest => exact ⟨entry, rest, rfl⟩
      rw [hpending] at hhead ⊢
      have hentry : entry.isNotice = false := hhead entry rfl
      have hone : accountedFor o.byteLength (ours [entry]) ≤ 1 := by
        rw [accountedFor_ours]
        exact accountedFor_le_length (forall_mem_singleton.mpr hentry)
      have htold := h.told
      have hsplit : ours s.unwritten = ours s.inDrain ++ ours [entry] ++ ours rest := by
        rw [unwritten, hpending, ← ours_append, ← ours_append, append_assoc]
        rfl
      rw [ToldWith, hsplit, ← append_assoc, ← append_assoc] at htold
      have hnew := (htold.without hone).enqueue text
      refine ⟨h.disk, ?_, ?_, h.waits⟩
      · change Told o _ _ (_ ++ ours (s.inDrain ++ (rest ++ [_])))
        rw [ours_append s.inDrain, ours_append rest, ← append_assoc, ← append_assoc]
        exact hnew
      · intro hnone
        exact absurd hnone (append_ne_nil_of_right_ne_nil _ (cons_ne_nil _ _))
    · have hnew := h.told.enqueue text
      rw [unwritten, ours_append s.inDrain, ← append_assoc] at hnew
      refine ⟨h.disk, ?_, ?_, h.waits⟩
      · change Told o _ _ (_ ++ ours (s.inDrain ++ (s.pending ++ [_])))
        rw [ours_append s.inDrain, ours_append s.pending, ← append_assoc, ← append_assoc]
        exact hnew
      · intro hnone
        exact absurd hnone (append_ne_nil_of_right_ne_nil _ (cons_ne_nil _ _))

theorem Sound.drain (h : s.Sound o) (hidle : s.draining = none) : s.drain.Sound o := by
  rw [RotatingFileWriter.drain]
  split
  · exact h
  · have htold := h.told
    rw [unwritten, inDrain, hidle] at htold
    have hnotice : Told o s.enqueued 0 (ours (s.rotatedOut ++ chronological s.disk) ++
        ours (s.pending ++ s.takeDroppedNotice)) := by
      rw [takeDroppedNotice]
      split
      · rename_i hzero
        rw [append_nil]
        exact hzero ▸ htold
      · rw [ours_append _ [_], ← append_assoc]
        exact htold.notice
    refine ⟨h.disk, ?_, fun _ => rfl, ?_⟩
    · rw [unwritten, append_nil]
      exact hnotice
    · intro d hd
      cases hd
      exact rfl

theorem Sound.step (h : s.Sound o) (hfiles : 2 ≤ o.files) (hcalm : s.Undisturbed e)
    (hstep : s.step o e = some s') : s'.Sound o := by
  cases e with
  | enqueue text =>
    cases hstep
    exact h.enqueue hcalm
  | drain =>
    obtain ⟨hidle, hs⟩ := ite_none_right_eq_some.mp hstep
    cases hs
    exact h.drain (isNone_iff_eq_none.mp hidle)
  | succeeds =>
    obtain ⟨d, hd, rfl⟩ := map_eq_some_iff.mp hstep
    exact h.succeed hd hfiles
  | fails =>
    obtain ⟨d, hd, rfl⟩ := map_eq_some_iff.mp hstep
    exact h.fail hd hcalm
  | flushSync outcome =>
    cases hstep
    have hsame : s.flushSync outcome = s := if_pos hcalm
    exact hsame.symm ▸ h
  | close =>
    cases hstep
    exact { h with }

theorem ours_of_earlier {entries : List (LogEntry Text)} (h : ∀ entry ∈ entries, entry.isEarlier = true) :
    ours entries = [] := by
  apply filter_eq_nil_iff.mpr
  intro entry hentry hours
  rw [h entry hentry] at hours
  cases hours

theorem mem_chronological {disk : List (Option (List (LogEntry Text)))}
    (h : entry ∈ chronological disk) : ∃ file, some file ∈ disk ∧ entry ∈ file := by
  induction disk with
  | nil => cases h
  | cons file older ih =>
    rcases mem_append.mp h with holder | hfile
    · obtain ⟨other, hother, hentry⟩ := ih holder
      exact ⟨other, mem_cons_of_mem _ hother, hentry⟩
    · cases file with
      | none => cases hfile
      | some file => exact ⟨file, mem_cons_self .., hfile⟩

theorem Sound.start {disk : List (Option (List (LogEntry Text)))} (hlength : disk.length = o.files + 1)
    (hearlier : ∀ file, some file ∈ disk → (∀ entry ∈ file, entry.isEarlier = true) ∧ Fits o file) :
    ({ disk } : RotatingFileWriter Text).Sound o := by
  have hnone : ours (chronological disk) = [] := by
    apply ours_of_earlier
    intro entry hentry
    obtain ⟨file, hfile, hmem⟩ := mem_chronological hentry
    exact (hearlier file hfile).1 entry hmem
  exact
    { disk :=
        { length := hlength
          last := fun file hfile => ours_of_earlier (hearlier file (mem_of_getElem? hfile)).1
          fits := fun file hfile => (hearlier file hfile).2
          counted := by
            intro c hc
            cases hc }
      told := by
        change Told o [] 0 (ours (chronological disk) ++ [])
        rw [hnone]
        exact ⟨by simp, List.Pairwise.nil, le_refl _⟩
      idle := fun _ => rfl
      waits := by
        intro d hd
        cases hd }

theorem Sound.kept (h : s.Sound o) : s.Kept o where
  texts := by
    intro number text hmem
    apply h.told.texts
    exact mem_append_left _ (mem_ours_line.mpr hmem)
  ordered := by
    have hordered := h.told.ordered
    rw [lineNumbers_append, lineNumbers_ours] at hordered
    exact (pairwise_append.mp hordered).1
  accounted := by
    intro hidle hpending
    have haccounted := h.told.accounted
    rw [unwritten, inDrain, hidle, hpending, accountedFor_append, accountedFor_ours, h.idle hpending] at haccounted
    exact haccounted
  fits := h.disk.fits

/-- A run in which the lines of a drain come to be restored only where none of them was written. -/
theorem linesKept_of_run {disk : List (Option (List (LogEntry Text)))} {events : List (LogWriterEvent Text)}
    (hfiles : 2 ≤ o.files) (hlength : disk.length = o.files + 1)
    (hearlier : ∀ file, some file ∈ disk → (∀ entry ∈ file, entry.isEarlier = true) ∧ Fits o file)
    (hcalm : AlongRun (step o) Undisturbed { disk } events) (hrun : events.foldlM (step o) { disk } = some s) :
    s.Kept o := by
  have hsound : s.Sound o := hcalm.invariant (I := fun s => s.Sound o)
    (fun _ _ _ h hcalm hstep => h.step hfiles hcalm hstep) (.start hlength hearlier) hrun
  exact hsound.kept

def fourBytes : RotatingFileWriterOptions String := ⟨4, 2, String.utf8ByteSize⟩

def writesLater : List (LogWriterEvent String) :=
  [.enqueue "one\n", .drain, .succeeds, .succeeds, .enqueue "two\n", .fails, .drain, .succeeds, .succeeds, .succeeds,
    .succeeds, .succeeds, .succeeds, .succeeds, .succeeds]

theorem writesLater_kept : ∃ s, writesLater.foldlM (step fourBytes) { disk := [none, none, none] } = some s ∧
    s.disk = [none, some [.line 1 "two\n"], none] ∧ s.rotatedOut = [.line 0 "one\n"] ∧ s.Kept fourBytes := by
  refine ⟨_, rfl, by decide +kernel, by decide +kernel, ?_⟩
  apply @linesKept_of_run _ fourBytes _ [none, none, none] writesLater (by decide) rfl
  · intro file hfile
    simp at hfile
  · decide +kernel
  · rfl

/-- A line is written, and the rotation after it fails: it is restored and written again. -/
def rotationFails : List (LogWriterEvent String) :=
  [.enqueue "one\n", .drain, .succeeds, .succeeds, .succeeds, .fails, .drain, .succeeds, .succeeds, .succeeds,
    .succeeds, .succeeds, .succeeds, .succeeds, .succeeds, .succeeds]

theorem rotationFails_twice :
    ∃ s, rotationFails.foldlM (step { fourBytes with files := 3 }) { disk := [none, none, none, none] } = some s ∧
      s.draining = none ∧ s.pending = [] ∧ chronological s.disk = [.line 0 "one\n", .line 0 "one\n"] ∧
      ¬ s.Kept { fourBytes with files := 3 } := by
  refine ⟨_, rfl, by decide +kernel, by decide +kernel, by decide +kernel, ?_⟩
  intro hkept
  have hordered := hkept.ordered
  revert hordered
  decide +kernel

end RotatingFileWriter

end Echadron.Base
