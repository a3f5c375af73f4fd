import Vsc.Types
import Vsc.Lib.CString
import Vsc.Lib.LineReader

/-! # Whether a device is mounted

`vsc_check_if_dev_mounted` reads the list of mounts in chunks of at most `PAGE_SIZE - 1` bytes, puts
its lines together in a buffer of one page, and looks for the device in each of them with `sscanf`.

* **`vscFindDevInMntInfo`**, **`vscCheckIfDevMounted`** — the two functions;
* **`vscReadMounts_spec`** — which lines are looked at: those that the line reader hands on, up to
  the first one that names the device;
* **`mountsRead_iff`** — for which contents these are all the lines shorter than a page, however the
  reads cut the file. -/

namespace Vsc

open Lib (IsCut OnlyLastFills Spells bytesOf cstr readChunk readChunks records shortLines strncmp)

/-- `NAME_MAX`, the size of the buffer for the first word of a line. -/
def NAME_MAX : ℕ := 255

/-- The character `'\n'`. -/
def NEWLINE : BitVec 8 := 0x0a

/-! ## One line -/

/-- The kernel's `isspace`. -/
def isspace (b : BitVec 8) : Bool := (0x09 ≤ b ∧ b ≤ 0x0d) ∨ b = 0x20 ∨ b = 0xa0

/-- The kernel's `sscanf(str, "%s %s", devmane, dummy)`: the number of conversions, and the two
words. Without a character left there is no conversion. -/
def sscanfWords (str : List (BitVec 8)) : ℕ × List (BitVec 8) × List (BitVec 8) :=
  if str = [] then (0, [], [])
  else
    let str := str.dropWhile isspace
    let devmane := str.takeWhile fun b => !isspace b
    let str := (str.dropWhile fun b => !isspace b).dropWhile isspace
    if str = [] then (1, devmane, []) else (2, devmane, str.takeWhile fun b => !isspace b)

/-- The string in a line: it ends at the first `NUL`. -/
def lineString (line : List (BitVec 8)) : List (BitVec 8) := line.takeWhile fun b => b != 0

/-- `vsc_find_dev_in_mnt_info`, with its allocations succeeding; `none` if `sscanf` writes behind
one of its buffers. -/
def vscFindDevInMntInfo (line : List (BitVec 8)) (name : ℕ → BitVec 8) : Option ℤ :=
  let (n, devmane, dummy) := sscanfWords (lineString line)
  if devmane.length + 1 > NAME_MAX ∨ dummy.length + 1 > PAGE_SIZE then none
  else if n ≠ 2 then some (-ENOENT)
  else if strncmp (bytesOf devmane) name NAME_MAX ≠ 0 then some (-ENOENT)
  else some 0

/-- The string `str` has two words, of which `f` is the first. -/
def FirstOfTwo (str f : List (BitVec 8)) : Prop :=
  ∃ lead sep b rest, str = lead ++ (f ++ (sep ++ b :: rest)) ∧ (∀ c ∈ lead, isspace c) ∧
    f ≠ [] ∧ (∀ c ∈ f, ¬ isspace c) ∧ sep ≠ [] ∧ (∀ c ∈ sep, isspace c) ∧ ¬ isspace b

/-- **The line mounts the device** `name`: it has two words, and the first one is the name. -/
def Mounts (line : List (BitVec 8)) (name : ℕ → BitVec 8) : Prop :=
  ∃ f, FirstOfTwo (lineString line) f ∧ Spells name f

/-- The first word of a line. -/
def firstWord (line : List (BitVec 8)) : List (BitVec 8) :=
  ((lineString line).dropWhile isspace).takeWhile fun b => !isspace b

section Line

variable {line str f g : List (BitVec 8)} {name : ℕ → BitVec 8} {r : ℤ}

/-- The first word that `sscanf` finds. -/
theorem sscanfWords_fst (str : List (BitVec 8)) :
    (sscanfWords str).2.1 = (str.dropWhile isspace).takeWhile fun b => !isspace b := by
  simp only [sscanfWords]
  split_ifs with hnil
  · rw [hnil]
    rfl
  · rfl
  · rfl

theorem length_sscanfWords_snd (str : List (BitVec 8)) :
    (sscanfWords str).2.2.length ≤ str.length := by
  simp only [sscanfWords]
  split_ifs
  · exact Nat.zero_le _
  · exact Nat.zero_le _
  · exact ((List.takeWhile_sublist _).trans ((List.dropWhile_sublist _).trans
      ((List.dropWhile_sublist _).trans (List.dropWhile_sublist _)))).length_le

/-- Two words are two conversions. -/
theorem FirstOfTwo.sscanfWords (h : FirstOfTwo str f) :
    (sscanfWords str).1 = 2 ∧ (sscanfWords str).2.1 = f := by
  obtain ⟨lead, sep, b, rest, rfl, hlead, hf, hword, hsep, hblank, hb⟩ := h
  have hdrop : (lead ++ (f ++ (sep ++ b :: rest))).dropWhile isspace = f ++ (sep ++ b :: rest) := by
    rw [List.dropWhile_append_of_pos hlead]
    obtain ⟨c, f, rfl⟩ := List.exists_cons_of_ne_nil hf
    exact List.dropWhile_cons_of_neg (hword c List.mem_cons_self)
  obtain ⟨c, sep', rfl⟩ := List.exists_cons_of_ne_nil hsep
  have hc : isspace c := hblank c List.mem_cons_self
  have hfirst : (f ++ (c :: sep' ++ b :: rest)).takeWhile (fun b => !isspace b) = f := by
    rw [List.takeWhile_append_of_pos (by simpa using hword), List.cons_append,
      List.takeWhile_cons_of_neg (by simp [hc]), List.append_nil]
  have hsecond : ((f ++ (c :: sep' ++ b :: rest)).dropWhile fun b => !isspace b).dropWhile isspace
      = b :: rest := by
    rw [List.dropWhile_append_of_pos (by simpa using hword), List.cons_append,
      List.dropWhile_cons_of_neg (by simp [hc]), ← List.cons_append,
      List.dropWhile_append_of_pos hblank, List.dropWhile_cons_of_neg hb]
  have hne : lead ++ (f ++ (c :: sep' ++ b :: rest)) ≠ [] := by simp
  rw [sscanfWords_fst, hdrop]
  refine ⟨?_, hfirst⟩
  simp only [Vsc.sscanfWords, hdrop, hsecond, if_neg hne]
  rfl

/-- A character behind those that were dropped. -/
theorem not_of_dropWhile_eq_cons {p : BitVec 8 → Bool} {l l' : List (BitVec 8)} {c : BitVec 8}
    (h : l.dropWhile p = c :: l') : ¬ p c := by
  have hne : l.dropWhile p ≠ [] := by
    rw [h]
    exact List.cons_ne_nil _ _
  have hhead := List.head_dropWhile_not p hne
  simp only [h, List.head_cons] at hhead
  simp [hhead]

/-- Two conversions are two words. -/
theorem firstOfTwo_of_sscanfWords (h : (sscanfWords str).1 = 2) :
    FirstOfTwo str (sscanfWords str).2.1 := by
  rw [sscanfWords_fst]
  simp only [sscanfWords] at h
  obtain ⟨s₁, hs₁⟩ : ∃ s₁, s₁ = str.dropWhile isspace := ⟨_, rfl⟩
  obtain ⟨s₂, hs₂⟩ : ∃ s₂, s₂ = s₁.dropWhile fun b => !isspace b := ⟨_, rfl⟩
  rw [← hs₁] at h ⊢
  rw [← hs₂] at h
  obtain ⟨b, rest, hb⟩ : ∃ b rest, s₂.dropWhile isspace = b :: rest := by
    refine List.exists_cons_of_ne_nil fun hnil => ?_
    rw [if_pos hnil] at h
    split_ifs at h
    cases h
  have hlast : ¬ isspace b := not_of_dropWhile_eq_cons hb
  have hsplit : str = str.takeWhile isspace ++ ((s₁.takeWhile fun b => !isspace b) ++
      (s₂.takeWhile isspace ++ b :: rest)) := by
    rw [← hb, List.takeWhile_append_dropWhile, hs₂, List.takeWhile_append_dropWhile, hs₁,
      List.takeWhile_append_dropWhile]
  have hword : ∀ c ∈ s₁.takeWhile fun b => !isspace b, ¬ isspace c := fun c hc => by
    simpa using List.mem_takeWhile_imp hc
  obtain ⟨c₂, l₂, hc₂⟩ : ∃ c₂ l₂, s₂ = c₂ :: l₂ := by
    refine List.exists_cons_of_ne_nil fun hnil => ?_
    rw [hnil] at hb
    cases hb
  obtain ⟨c₁, l₁, hc₁⟩ : ∃ c₁ l₁, s₁ = c₁ :: l₁ := by
    refine List.exists_cons_of_ne_nil fun hnil => ?_
    rw [hnil, hc₂] at hs₂
    cases hs₂
  have hfirst : ¬ isspace c₁ := not_of_dropWhile_eq_cons (hs₁.symm.trans hc₁)
  have hblank : isspace c₂ := by simpa using not_of_dropWhile_eq_cons (hs₂.symm.trans hc₂)
  refine ⟨_, _, b, rest, hsplit, fun c => List.mem_takeWhile_imp, ?_, hword, ?_,
    fun c => List.mem_takeWhile_imp, hlast⟩
  · rw [hc₁, List.takeWhile_cons_of_pos (by simpa using hfirst)]
    exact List.cons_ne_nil _ _
  · rw [hc₂, List.takeWhile_cons_of_pos hblank]
    exact List.cons_ne_nil _ _

/-- A word of a line has no `NUL`. -/
theorem FirstOfTwo.zero_notMem (h : FirstOfTwo (lineString line) f) : 0 ∉ f := by
  obtain ⟨lead, sep, b, rest, hsplit, -⟩ := h
  intro hzero
  have hmem : (0 : BitVec 8) ∈ lineString line := by
    rw [hsplit]
    exact List.mem_append_right _ (List.mem_append_left _ hzero)
  exact absurd (List.mem_takeWhile_imp hmem) (by decide)

/-- The comparison of a word that fits into its buffer. -/
theorem strncmp_word_eq_zero_iff (hfits : f.length < NAME_MAX)
    (h : FirstOfTwo (lineString line) f) :
    strncmp (bytesOf f) name NAME_MAX = 0 ↔ Spells name f := by
  rw [Lib.strncmp_eq_zero_iff, (Lib.cstr_eq_iff hfits).mpr (Lib.spells_bytesOf h.zero_notMem),
    eq_comm, Lib.cstr_eq_iff hfits]

/-- A line in which the device is found mounts it. -/
theorem mounts_of_find (h : vscFindDevInMntInfo line name = some 0) : Mounts line name := by
  simp only [vscFindDevInMntInfo] at h
  split_ifs at h with hover htwo hne
  · simp [ENOENT] at h
  · simp [ENOENT] at h
  · have hfirst := firstOfTwo_of_sscanfWords (not_not.mp htwo)
    have hfits : (sscanfWords (lineString line)).2.1.length < NAME_MAX :=
      Nat.lt_of_succ_le (Nat.not_lt.mp (not_or.mp hover).1)
    exact ⟨_, hfirst, (strncmp_word_eq_zero_iff hfits hfirst).mp (not_not.mp hne)⟩

/-- **What is found in a line** that is shorter than a page and whose first word fits: the device,
if the line mounts it. -/
theorem vscFindDevInMntInfo_eq (hline : line.length < PAGE_SIZE) :
    (vscFindDevInMntInfo line name = none ↔ NAME_MAX ≤ (firstWord line).length) ∧
      ((firstWord line).length < NAME_MAX →
        (vscFindDevInMntInfo line name = some 0 ↔ Mounts line name)) := by
  have hstr : (lineString line).length ≤ line.length := (List.takeWhile_sublist _).length_le
  have hdummy : ¬ (sscanfWords (lineString line)).2.2.length + 1 > PAGE_SIZE := by
    have := length_sscanfWords_snd (lineString line)
    omega
  have hword : (sscanfWords (lineString line)).2.1 = firstWord line := sscanfWords_fst _
  simp only [vscFindDevInMntInfo, hdummy, or_false, hword]
  constructor
  · split_ifs with hlen
    · exact iff_of_true rfl (by omega)
    · exact iff_of_false nofun (by omega)
    · exact iff_of_false nofun (by omega)
    · exact iff_of_false nofun (by omega)
  · intro hfits
    rw [if_neg (by omega)]
    by_cases htwo : (sscanfWords (lineString line)).1 = 2
    · have hfirst : FirstOfTwo (lineString line) (firstWord line) := by
        rw [← hword]
        exact firstOfTwo_of_sscanfWords htwo
      have hmounts : Mounts line name ↔ Spells name (firstWord line) := by
        refine ⟨fun ⟨f, hf, hname⟩ => ?_, fun hname => ⟨_, hfirst, hname⟩⟩
        rwa [← hword, hf.sscanfWords.2]
      rw [if_neg (not_not.mpr htwo), hmounts, ← strncmp_word_eq_zero_iff hfits hfirst]
      split_ifs with hne
      · exact iff_of_false (by simp [ENOENT]) hne
      · exact iff_of_true rfl (not_not.mp hne)
    · rw [if_pos htwo]
      exact iff_of_false (by simp [ENOENT]) fun ⟨f, hf, _⟩ => htwo hf.sscanfWords.1

end Line

/-! ## The file -/

/-- What `filp_open` and `kernel_read` give of `/proc/self/mounts`. -/
structure MntFile where
  /-- It is a regular file. -/
  isReg : Bool
  /-- It has a `read` operation. -/
  hasRead : Bool
  /-- What the reads return, one after the other. -/
  reads : List (List (BitVec 8))

/-- The variables of `vsc_check_if_dev_mounted`. -/
structure MntScan where
  /-- The `linelen` characters of `line`. -/
  line : List (BitVec 8)
  /-- `ret`. -/
  ret : ℤ
  /-- `is_found`. -/
  isFound : Bool
  /-- The lines that were looked at. -/
  looked : List (List (BitVec 8))

/-- The variables before the first read. -/
def MntScan.init : MntScan := { line := [], ret := -ENOENT, isFound := false, looked := [] }

/-- The loop over what one read returned; `none` if `sscanf` has overrun a buffer. -/
def vscScanChunk (name : ℕ → BitVec 8) : List (BitVec 8) → MntScan → Option MntScan
  | [], s => some s
  | b :: buff, s =>
      -- the line is full: it goes, and the rest of the chunk with it
      if s.line.length ≥ PAGE_SIZE - 1 then some { s with line := [] }
      else if b = NEWLINE then
        match vscFindDevInMntInfo (s.line ++ [b]) name with
        | none => none
        | some ret =>
            let s := { s with line := [], ret := ret, looked := s.looked ++ [s.line ++ [b]] }
            -- the device was found, and the rest of the chunk is not looked at
            if ret = 0 then some { s with isFound := true } else vscScanChunk name buff s
      else vscScanChunk name buff { s with line := s.line ++ [b] }

/-- The loop over the reads. -/
def vscReadMounts (name : ℕ → BitVec 8) : List (List (BitVec 8)) → MntScan → Option MntScan
  | [], s => some s
  | buff :: reads, s =>
      if s.isFound then some s
      -- the end of the file
      else if buff = [] then some s
      else (vscScanChunk name buff s).bind (vscReadMounts name reads)

/-- `vsc_check_if_dev_mounted`, with its allocations succeeding; without a file, `filp_open` has
failed. -/
def vscCheckIfDevMounted (file : Option MntFile) (name : ℕ → BitVec 8) : Option MntScan :=
  match file with
  | none => some { MntScan.init with ret := -EACCES }
  | some f =>
      if ¬ f.isReg then some { MntScan.init with ret := -EACCES }
      else if ¬ f.hasRead then some { MntScan.init with ret := - EIO }
      else vscReadMounts name f.reads .init

/-- The lines of `ls` up to the first one in which the device is found. -/
def untilFound (name : ℕ → BitVec 8) : List (List (BitVec 8)) → List (List (BitVec 8))
  | [] => []
  | l :: ls => if vscFindDevInMntInfo l name = some 0 then [l] else l :: untilFound name ls

/-- What looking at the lines `ls`, with `line` left over, makes of the variables: the loop ends
with the first line in which the device is found. -/
structure MntScan.Looks (name : ℕ → BitVec 8) (s : MntScan) (ls : List (List (BitVec 8)))
    (line : List (BitVec 8)) (s' : MntScan) : Prop where
  /-- The lines. -/
  looked : s'.looked = s.looked ++ untilFound name ls
  /-- Whether the device is in one of them. -/
  isFound : s'.isFound = true ↔ ∃ l ∈ ls, vscFindDevInMntInfo l name = some 0
  /-- `ret`. -/
  ret : s'.ret = 0 ↔ s'.isFound = true
  /-- What is left over. -/
  line : s'.isFound = false → s'.line = line

section File

variable {name : ℕ → BitVec 8} {s s' : MntScan} {l : List (BitVec 8)}
  {ls ls' : List (List (BitVec 8))}

theorem untilFound_of_forall (h : ∀ l ∈ ls, vscFindDevInMntInfo l name ≠ some 0) :
    untilFound name ls = ls := by
  induction ls with
  | nil => rfl
  | cons l ls ih =>
      obtain ⟨hl, hls⟩ := List.forall_mem_cons.mp h
      rw [untilFound, if_neg hl, ih hls]

theorem mem_of_mem_untilFound (h : l ∈ untilFound name ls) : l ∈ ls := by
  induction ls with
  | nil => cases h
  | cons l₁ ls ih =>
      rw [untilFound] at h
      split_ifs at h
      · rw [List.mem_singleton.mp h]
        exact List.mem_cons_self
      · rcases List.mem_cons.mp h with rfl | h
        · exact List.mem_cons_self
        · exact List.mem_cons_of_mem _ (ih h)

theorem untilFound_append_of_forall (h : ∀ l ∈ ls, vscFindDevInMntInfo l name ≠ some 0) :
    untilFound name (ls ++ ls') = ls ++ untilFound name ls' := by
  induction ls with
  | nil => rfl
  | cons l ls ih =>
      obtain ⟨hl, hls⟩ := List.forall_mem_cons.mp h
      rw [List.cons_append, untilFound, if_neg hl, ih hls]
      rfl

theorem untilFound_append_of_mem (hmem : l ∈ ls) (h : vscFindDevInMntInfo l name = some 0) :
    untilFound name (ls ++ ls') = untilFound name ls := by
  induction ls with
  | nil => cases hmem
  | cons l₁ ls ih =>
      rw [List.cons_append, untilFound, untilFound]
      split_ifs with hfound
      · rfl
      · rcases List.mem_cons.mp hmem with rfl | hmem
        · exact absurd h hfound
        · rw [ih hmem]

theorem mem_untilFound_append (h : l ∈ untilFound name ls) : l ∈ untilFound name (ls ++ ls') := by
  by_cases hfound : ∃ l₁ ∈ ls, vscFindDevInMntInfo l₁ name = some 0
  · obtain ⟨l₁, hmem, hl₁⟩ := hfound
    rwa [untilFound_append_of_mem hmem hl₁]
  · push Not at hfound
    rw [untilFound_of_forall hfound] at h
    rw [untilFound_append_of_forall hfound]
    exact List.mem_append_left _ h

/-- **One read**: the lines that are looked at are those of the line reader, up to the first one in
which the device is found. -/
theorem vscScanChunk_spec (buff : List (BitVec 8)) (hs : s.isFound = false) (hret : s.ret ≠ 0) :
    (vscScanChunk name buff s = none ∧
        ∃ l ∈ untilFound name (readChunk (PAGE_SIZE - 1) NEWLINE buff s.line).1,
          vscFindDevInMntInfo l name = none) ∨
      ∃ s', vscScanChunk name buff s = some s' ∧
        s.Looks name (readChunk (PAGE_SIZE - 1) NEWLINE buff s.line).1
          (readChunk (PAGE_SIZE - 1) NEWLINE buff s.line).2 s' ∧
        ∀ l ∈ untilFound name (readChunk (PAGE_SIZE - 1) NEWLINE buff s.line).1,
          vscFindDevInMntInfo l name ≠ none := by
  -- on the bytes that are left; the line so far and `ret` change with each
  induction buff generalizing s with
  | nil =>
      refine .inr ⟨s, rfl, ⟨(List.append_nil _).symm, ?_, ?_, fun _ => rfl⟩, List.forall_mem_nil _⟩
      · simp [readChunk, hs]
      · simp [hs, hret]
  | cons b buff ih =>
      rw [vscScanChunk, readChunk]
      by_cases hfull : PAGE_SIZE - 1 ≤ s.line.length
      -- the line does not fit, and the rest of the read is dropped on both sides
      · rw [if_pos hfull, if_pos hfull]
        refine .inr ⟨_, rfl, ⟨(List.append_nil _).symm, ?_, ?_, fun _ => rfl⟩,
          List.forall_mem_nil _⟩
        · simp [hs]
        · simp [hs, hret]
      rw [if_neg hfull, if_neg hfull]
      by_cases hb : b = NEWLINE
      · subst hb
        rw [if_pos rfl, if_pos rfl]
        cases hfind : vscFindDevInMntInfo (s.line ++ [NEWLINE]) name with
        -- `sscanf` overruns its buffer in this line
        | none =>
            refine .inl ⟨rfl, _, ?_, hfind⟩
            rw [untilFound, if_neg (by simp [hfind])]
            exact List.mem_cons_self
        | some ret =>
            by_cases hzero : ret = 0
            · -- the device is found: the rest of the read is not looked at
              subst hzero
              have huntil : ∀ ls, untilFound name ((s.line ++ [NEWLINE]) :: ls)
                  = [s.line ++ [NEWLINE]] := fun ls => by rw [untilFound, if_pos hfind]
              refine .inr ⟨_, if_pos rfl, ⟨?_, ?_, ?_, fun h => ?_⟩, ?_⟩
              · rw [huntil]
              · exact iff_of_true rfl ⟨_, List.mem_cons_self, hfind⟩
              · exact iff_of_true rfl rfl
              · cases h
              · intro l hl
                rw [huntil, List.mem_singleton] at hl
                rw [hl, hfind]
                exact Option.some_ne_none _
            -- another line: the loop goes on behind it
            · have hne : vscFindDevInMntInfo (s.line ++ [NEWLINE]) name ≠ some 0 := by
                rw [hfind]
                exact fun h => hzero (Option.some.inj h)
              have huntil : ∀ ls, untilFound name ((s.line ++ [NEWLINE]) :: ls)
                  = (s.line ++ [NEWLINE]) :: untilFound name ls := fun ls => by
                rw [untilFound, if_neg hne]
              simp only [if_neg hzero, huntil]
              rcases @ih
                { s with line := [], ret := ret, looked := s.looked ++ [s.line ++ [NEWLINE]] }
                hs hzero with ⟨hnone, l, hl, hover⟩ | ⟨s', hrun, hlooks, hall⟩
              · exact .inl ⟨hnone, l, List.mem_cons_of_mem _ hl, hover⟩
              · refine .inr ⟨s', hrun, ⟨?_, ?_, hlooks.ret, hlooks.line⟩, ?_⟩
                · rw [hlooks.looked, huntil, List.append_assoc]
                  rfl
                · rw [hlooks.isFound, List.exists_mem_cons_iff]
                  exact (or_iff_right hne).symm
                · refine List.forall_mem_cons.mpr ⟨?_, hall⟩
                  rw [hfind]
                  exact Option.some_ne_none _
      · rw [if_neg hb, if_neg hb]
        rcases @ih { s with line := s.line ++ [b] } hs hret with hnone | ⟨s', hrun, hlooks, hall⟩
        · exact .inl hnone
        · exact .inr ⟨s', hrun, ⟨hlooks.looked, hlooks.isFound, hlooks.ret, hlooks.line⟩, hall⟩

/-- **All reads** of a file, none of them empty. -/
theorem vscReadMounts_spec {reads : List (List (BitVec 8))} (hs : s.isFound = false)
    (hret : s.ret ≠ 0) (hreads : ∀ buff ∈ reads, buff ≠ []) :
    (vscReadMounts name reads s = none ∧
        ∃ l ∈ untilFound name (readChunks (PAGE_SIZE - 1) NEWLINE reads s.line).1,
          vscFindDevInMntInfo l name = none) ∨
      ∃ s', vscReadMounts name reads s = some s' ∧
        s.Looks name (readChunks (PAGE_SIZE - 1) NEWLINE reads s.line).1
          (readChunks (PAGE_SIZE - 1) NEWLINE reads s.line).2 s' ∧
        ∀ l ∈ untilFound name (readChunks (PAGE_SIZE - 1) NEWLINE reads s.line).1,
          vscFindDevInMntInfo l name ≠ none := by
  -- on the reads, each of which begins with what the one before left over
  induction reads generalizing s with
  | nil =>
      refine .inr ⟨s, rfl, ⟨(List.append_nil _).symm, ?_, ?_, fun _ => rfl⟩, List.forall_mem_nil _⟩
      · simp [readChunks, hs]
      · simp [hs, hret]
  | cons buff reads ih =>
      obtain ⟨hbuff, hreads⟩ := List.forall_mem_cons.mp hreads
      rw [vscReadMounts, if_neg (by simp [hs]), if_neg hbuff]
      simp only [readChunks]
      rcases vscScanChunk_spec buff hs hret with ⟨hnone, l, hl, hover⟩ | ⟨s₁, hrun, hlooks, hall⟩
      · rw [hnone]
        exact .inl ⟨rfl, l, mem_untilFound_append hl, hover⟩
      rw [hrun, Option.bind_some]
      by_cases hfound : s₁.isFound = true
      · -- no other read follows
        have hend : vscReadMounts name reads s₁ = some s₁ := by
          cases reads with
          | nil => rfl
          | cons => exact if_pos hfound
        obtain ⟨l, hl, hmatch⟩ := hlooks.isFound.mp hfound
        have huntil : ∀ ls',
            untilFound name ((readChunk (PAGE_SIZE - 1) NEWLINE buff s.line).1 ++ ls')
            = untilFound name (readChunk (PAGE_SIZE - 1) NEWLINE buff s.line).1 := fun ls' =>
          untilFound_append_of_mem hl hmatch
        refine .inr ⟨s₁, hend, ⟨?_, ?_, hlooks.ret, fun h => ?_⟩, ?_⟩
        · rw [huntil, hlooks.looked]
        · exact iff_of_true hfound ⟨l, List.mem_append_left _ hl, hmatch⟩
        · rw [h] at hfound
          cases hfound
        · rwa [huntil]
      -- nothing found so far: the lines of this read stand in front of the later ones
      · have hnot : ∀ l ∈ (readChunk (PAGE_SIZE - 1) NEWLINE buff s.line).1,
            vscFindDevInMntInfo l name ≠ some 0 := fun l hl hmatch =>
          hfound (hlooks.isFound.mpr ⟨l, hl, hmatch⟩)
        have hs₁ : s₁.isFound = false := by simpa using hfound
        rw [untilFound_append_of_forall hnot]
        rw [← hlooks.line hs₁]
        rw [untilFound_of_forall hnot] at hall
        rcases ih hs₁ (fun h => hfound (hlooks.ret.mp h)) hreads with
          ⟨hnone, l, hl, hover⟩ | ⟨s', hrun', hlooks', hall'⟩
        · exact .inl ⟨hnone, l, List.mem_append_right _ hl, hover⟩
        · refine .inr ⟨s', hrun', ⟨?_, ?_, hlooks'.ret, hlooks'.line⟩, ?_⟩
          · rw [hlooks'.looked, hlooks.looked, untilFound_append_of_forall hnot,
              untilFound_of_forall hnot, List.append_assoc]
          · rw [hlooks'.isFound]
            constructor
            · rintro ⟨l, hl, hmatch⟩
              exact ⟨l, List.mem_append_right _ hl, hmatch⟩
            · rintro ⟨l, hl, hmatch⟩
              rcases List.mem_append.mp hl with hl | hl
              · exact absurd hmatch (hnot l hl)
              · exact ⟨l, hl, hmatch⟩
          · exact List.forall_mem_append.mpr ⟨hall, hall'⟩

end File

/-! ## Which contents are read -/

/-- The newline-terminated lines of a file that are shorter than a page. -/
def mountLines (content : List (BitVec 8)) : List (List (BitVec 8)) :=
  shortLines (PAGE_SIZE - 1) NEWLINE (records NEWLINE [] content)

/-- **The mount check reads every line**: however the reads cut the file, and whatever the name,
`sscanf` stays inside its buffers, the lines that are looked at are those shorter than a page, up to
the first one that mounts the device, and the result is `0` exactly when there is such a line. -/
def MountsRead (content : List (BitVec 8)) : Prop :=
  ∀ reads, IsCut (PAGE_SIZE - 1) content reads → ∀ name,
    ∃ s, vscCheckIfDevMounted (some ⟨true, true, reads⟩) name = some s ∧
      s.looked = untilFound name (mountLines content) ∧
      (s.ret = 0 ↔ ∃ l ∈ mountLines content, Mounts l name)

section Content

variable {content : List (BitVec 8)} {l : List (BitVec 8)} {reads : List (List (BitVec 8))}
  {name : ℕ → BitVec 8}

theorem length_of_mem_mountLines (h : l ∈ mountLines content) : l.length < PAGE_SIZE := by
  have hlen : l.length ≤ PAGE_SIZE - 1 := by simpa using (List.mem_filter.mp h).2
  exact Nat.lt_of_le_pred (by decide) hlen

/-- No line mounts the device with the empty name. -/
theorem not_mounts_empty : ¬ Mounts l fun _ => 0 := by
  rintro ⟨f, ⟨lead, sep, b, rest, -, -, hf, -⟩, hname⟩
  obtain ⟨c, f, rfl⟩ := List.exists_cons_of_ne_nil hf
  exact hname.2.1 hname.1.symm

/-- What a check looks at. -/
theorem vscCheckIfDevMounted_spec (hcut : IsCut (PAGE_SIZE - 1) content reads) :
    (vscCheckIfDevMounted (some ⟨true, true, reads⟩) name = none ∧
        ∃ l ∈ untilFound name (readChunks (PAGE_SIZE - 1) NEWLINE reads []).1,
          vscFindDevInMntInfo l name = none) ∨
      ∃ s, vscCheckIfDevMounted (some ⟨true, true, reads⟩) name = some s ∧
        s.looked = untilFound name (readChunks (PAGE_SIZE - 1) NEWLINE reads []).1 ∧
        (s.ret = 0 ↔ ∃ l ∈ (readChunks (PAGE_SIZE - 1) NEWLINE reads []).1,
          vscFindDevInMntInfo l name = some 0) ∧
        ∀ l ∈ untilFound name (readChunks (PAGE_SIZE - 1) NEWLINE reads []).1,
          vscFindDevInMntInfo l name ≠ none := by
  rcases @vscReadMounts_spec name .init reads rfl (by decide)
    (fun buff h => (hcut.chunk buff h).1) with
    hnone | ⟨s, hrun, hlooks, hall⟩
  · exact .inl hnone
  · exact .inr ⟨s, hrun, hlooks.looked, hlooks.ret.trans hlooks.isFound, hall⟩

/-- **Which contents are read**, however the reads cut them: those in which no line is longer than a
page can hold, or as long and not the last one, and in which the first word of every line fits into
its buffer. -/
theorem mountsRead_iff (content : List (BitVec 8)) : MountsRead content ↔
    OnlyLastFills (PAGE_SIZE - 1) (records NEWLINE [] content) ∧
      ∀ l ∈ mountLines content, (firstWord l).length < NAME_MAX := by
  constructor
  · intro h
    -- a name that no line has: all lines are looked at
    have hall : ∀ reads, IsCut (PAGE_SIZE - 1) content reads →
        (readChunks (PAGE_SIZE - 1) NEWLINE reads []).1 = mountLines content ∧
          ∀ l ∈ mountLines content, (firstWord l).length < NAME_MAX := by
      intro reads hcut
      obtain ⟨s, hrun, hlooked, -⟩ := h reads hcut fun _ => 0
      have hnever : ∀ ls : List (List (BitVec 8)), ∀ l ∈ ls,
          vscFindDevInMntInfo l (fun _ => 0) ≠ some 0 :=
        fun ls l _ hfind => not_mounts_empty (mounts_of_find hfind)
      rcases @vscCheckIfDevMounted_spec _ _ (fun _ => 0) hcut with
        ⟨hnone, -⟩ | ⟨s', hrun', hlooked', -, hsome⟩
      · rw [hrun] at hnone
        cases hnone
      obtain rfl : s = s' := Option.some.inj (hrun.symm.trans hrun')
      rw [untilFound_of_forall (hnever _)] at hlooked hlooked' hsome
      have hlines := hlooked'.symm.trans hlooked
      refine ⟨hlines, fun l hl => ?_⟩
      rw [hlines] at hsome
      by_contra hlong
      exact hsome l hl ((vscFindDevInMntInfo_eq (length_of_mem_mountLines hl)).1.mpr
        (Nat.not_lt.mp hlong))
    exact ⟨(Lib.readChunks_eq_iff (by decide) content).mp fun reads hcut => (hall reads hcut).1,
      (hall _ (.singles (by decide) content)).2⟩
  · rintro ⟨hlast, hwords⟩ reads hcut name
    have hlines := (Lib.readChunks_eq_iff (by decide) content).mpr hlast reads hcut
    have hfind : ∀ l ∈ mountLines content, vscFindDevInMntInfo l name ≠ none ∧
        (vscFindDevInMntInfo l name = some 0 ↔ Mounts l name) := fun l hl => by
      obtain ⟨hover, hmounts⟩ := @vscFindDevInMntInfo_eq l name (length_of_mem_mountLines hl)
      exact ⟨fun hnone => Nat.not_le.mpr (hwords l hl) (hover.mp hnone), hmounts (hwords l hl)⟩
    rcases @vscCheckIfDevMounted_spec _ _ name hcut with
      ⟨-, l, hl, hover⟩ | ⟨s, hrun, hlooked, hret, -⟩
    · rw [hlines] at hl
      exact absurd hover (hfind l (mem_of_mem_untilFound hl)).1
    · rw [hlines] at hlooked hret
      refine ⟨s, hrun, hlooked, hret.trans ⟨?_, ?_⟩⟩
      · rintro ⟨l, hl, hmatch⟩
        exact ⟨l, hl, (hfind l hl).2.mp hmatch⟩
      · rintro ⟨l, hl, hmatch⟩
        exact ⟨l, hl, (hfind l hl).2.mpr hmatch⟩

/-- A mount of `"a"`. -/
def mountOfA : List (BitVec 8) := [0x61, 0x20, 0x62, NEWLINE]

/-- A line that fills the buffer, and behind it a mount of `"a"`. -/
def fullLine : List (BitVec 8) := List.replicate (PAGE_SIZE - 1) 0x78

/-- A mount of a device whose name does not fit into its buffer. -/
def longName : List (BitVec 8) := List.replicate NAME_MAX 0x61 ++ [0x20, 0x62, NEWLINE]

/-- The name `"a"` is not found when a line that fills the buffer stands before its mount, and a
first word of `NAME_MAX` characters is written behind its buffer. -/
theorem mount_lost_behind_full_line :
    (∃ s, vscCheckIfDevMounted (some ⟨true, true, [fullLine, NEWLINE :: mountOfA]⟩) (bytesOf [0x61])
        = some s ∧ s.ret ≠ 0) ∧
      mountOfA ∈ mountLines (fullLine ++ NEWLINE :: mountOfA) ∧ Mounts mountOfA (bytesOf [0x61]) ∧
      vscCheckIfDevMounted (some ⟨true, true, [longName]⟩) (bytesOf [0x61]) = none ∧
      ¬ MountsRead (fullLine ++ NEWLINE :: mountOfA) ∧ ¬ MountsRead longName := by
  have hx : NEWLINE ∉ fullLine := fun h => absurd (List.eq_of_mem_replicate h) (by decide)
  have hlen : fullLine.length = PAGE_SIZE - 1 := List.length_replicate
  have hcut : IsCut (PAGE_SIZE - 1) (fullLine ++ NEWLINE :: mountOfA)
      [fullLine, NEWLINE :: mountOfA] :=
    (IsCut.single (List.ne_nil_of_length_pos (by rw [hlen]; decide)) hlen.le).append
      (.single (List.cons_ne_nil _ _) (by decide))
  -- the first read fills the buffer, and the second one is dropped whole
  have hfill : readChunk (PAGE_SIZE - 1) NEWLINE fullLine [] = ([], fullLine) :=
    Lib.readChunk_of_notMem hx (by rw [hlen, List.length_nil, Nat.zero_add])
  have hlines : (readChunks (PAGE_SIZE - 1) NEWLINE [fullLine, NEWLINE :: mountOfA] []).1 = [] := by
    simp only [readChunks, hfill, Lib.readChunk_of_full hlen.ge, List.append_nil]
  have hmem : mountOfA ∈ mountLines (fullLine ++ NEWLINE :: mountOfA) := by
    rw [mountLines, Lib.records_append_sep hx, List.nil_append, Lib.shortLines_cons_of_le hlen.ge]
    decide
  have hmounts : Mounts mountOfA (bytesOf [0x61]) := mounts_of_find (by decide)
  obtain ⟨s, hrun, hret⟩ : ∃ s, vscCheckIfDevMounted
      (some ⟨true, true, [fullLine, NEWLINE :: mountOfA]⟩) (bytesOf [0x61]) = some s ∧
      s.ret ≠ 0 := by
    rcases @vscCheckIfDevMounted_spec _ _ (bytesOf [0x61]) hcut with
      ⟨-, l, hl, -⟩ | ⟨s, hrun, -, hret, -⟩
    · rw [hlines] at hl
      cases hl
    · refine ⟨s, hrun, fun hzero => ?_⟩
      obtain ⟨l, hl, -⟩ := hret.mp hzero
      rw [hlines] at hl
      cases hl
  have hnone : vscCheckIfDevMounted (some ⟨true, true, [longName]⟩) (bytesOf [0x61]) = none := by
    decide +kernel
  have hshort : longName.length ≤ PAGE_SIZE - 1 := by
    rw [longName, List.length_append, List.length_replicate]
    decide
  refine ⟨⟨s, hrun, hret⟩, hmem, hmounts, hnone, fun h => ?_, fun h => ?_⟩
  · obtain ⟨s', hrun', -, hiff⟩ := h _ hcut (bytesOf [0x61])
    obtain rfl : s = s' := Option.some.inj (hrun.symm.trans hrun')
    exact hret (hiff.mpr ⟨_, hmem, hmounts⟩)
  · have hnonempty : longName ≠ [] :=
      List.append_ne_nil_of_right_ne_nil _ (List.cons_ne_nil _ _)
    obtain ⟨s', hrun', -⟩ := h [longName] (.single hnonempty hshort) (bytesOf [0x61])
    rw [hnone] at hrun'
    cases hrun'

end Content

end Vsc
