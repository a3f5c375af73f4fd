import Mathlib.Data.List.Basic
import Mathlib.Tactic.Common

/-! # Reading lines through a buffer, chunk by chunk

A reader collects the line that is not terminated yet in a buffer for `cap` characters, and carries
it from one chunk to the next. When the buffer is full it empties the buffer and gives up the rest
of the chunk. What it hands on then depends on where the chunks end, unless the lines are short
enough.

* **`records`** — the terminated lines of a text, without their separator;
* **`readChunks`** — the reader;
* **`readChunks_eq_iff`** — for which texts it hands on exactly the lines that fit into the buffer,
  however the text is cut into chunks. -/

namespace Vsc.Lib

/-! ## Lines -/

section Lines

variable {α : Type*} {cap : ℕ} {sep : α} {r : List α} {rs rs' : List (List α)}

/-- The lines of `rs` that fit into `cap` characters, with their separators. -/
def shortLines (cap : ℕ) (sep : α) (rs : List (List α)) : List (List α) :=
  (rs.map (· ++ [sep])).filter fun l => l.length ≤ cap

theorem shortLines_cons_of_lt (h : r.length < cap) :
    shortLines cap sep (r :: rs) = (r ++ [sep]) :: shortLines cap sep rs := by
  rw [shortLines, List.map_cons, List.filter_cons_of_pos (by simpa using Nat.succ_le_of_lt h)]
  rfl

theorem shortLines_cons_of_le (h : cap ≤ r.length) :
    shortLines cap sep (r :: rs) = shortLines cap sep rs := by
  rw [shortLines, List.map_cons, List.filter_cons_of_neg (by simp; omega)]
  rfl

theorem shortLines_append :
    shortLines cap sep (rs ++ rs') = shortLines cap sep rs ++ shortLines cap sep rs' := by
  rw [shortLines, List.map_append, List.filter_append]
  rfl

/-- The text `l` is cut into chunks of at most `cap` characters, none of them empty. -/
structure IsCut (cap : ℕ) (l : List α) (chunks : List (List α)) : Prop where
  /-- Together they are the text. -/
  flatten : chunks.flatten = l
  /-- Their lengths. -/
  chunk : ∀ bs ∈ chunks, bs ≠ [] ∧ bs.length ≤ cap

theorem IsCut.append {l l' : List α} {chunks chunks' : List (List α)} (h : IsCut cap l chunks)
    (h' : IsCut cap l' chunks') : IsCut cap (l ++ l') (chunks ++ chunks') :=
  ⟨by rw [List.flatten_append, h.flatten, h'.flatten],
    List.forall_mem_append.mpr ⟨h.chunk, h'.chunk⟩⟩

theorem IsCut.single {bs : List α} (hne : bs ≠ []) (hlen : bs.length ≤ cap) : IsCut cap bs [bs] :=
  ⟨by simp, by simpa using ⟨hne, hlen⟩⟩

/-- The chunks that hold one character each. -/
def singles (l : List α) : List (List α) := l.map fun b => [b]

theorem flatten_singles (l : List α) : (singles l).flatten = l := by
  induction l with
  | nil => rfl
  | cons b l ih =>
      rw [singles, List.map_cons, List.flatten_cons, ← singles, ih]
      rfl

theorem IsCut.singles (hcap : 1 ≤ cap) (l : List α) : IsCut cap l (singles l) :=
  ⟨flatten_singles l, fun bs hbs => by
    obtain ⟨b, -, rfl⟩ := List.mem_map.mp hbs
    exact ⟨List.cons_ne_nil _ _, hcap⟩⟩

/-- **All lines but the last fit into the buffer**, and the last one without its separator. -/
def OnlyLastFills (cap : ℕ) (rs : List (List α)) : Prop :=
  (∀ r ∈ rs, r.length ≤ cap) ∧ ∀ r ∈ rs.dropLast, r.length < cap

theorem OnlyLastFills.tail (h : OnlyLastFills cap (r :: rs)) : OnlyLastFills cap rs := by
  refine ⟨fun r' hr' => h.1 r' (List.mem_cons_of_mem _ hr'), fun r' hr' => h.2 r' ?_⟩
  cases rs with
  | nil => cases hr'
  | cons r₁ rs => exact List.mem_cons_of_mem _ hr'

/-- A line that fills the buffer is the last one. -/
theorem OnlyLastFills.eq_nil (h : OnlyLastFills cap (r :: rs)) (hr : cap ≤ r.length) : rs = [] := by
  cases rs with
  | nil => rfl
  | cons r₁ rs => exact absurd (h.2 r List.mem_cons_self) (Nat.not_lt.mpr hr)

end Lines

variable {α : Type*} [DecidableEq α]

/-- The terminated lines of a text that goes on after `carry`. -/
def records (sep : α) : (carry : List α) → List α → List (List α)
  | _, [] => []
  | carry, b :: l =>
      if b = sep then carry :: records sep [] l else records sep (carry ++ [b]) l

section Records

variable {cap : ℕ} {sep : α} {c x l : List α} {r : List α} {rs rs' : List (List α)}

/-- Without a separator there is no line. -/
theorem records_of_notMem (h : sep ∉ l) : records sep c l = [] := by
  induction l generalizing c with
  | nil => rfl
  | cons b l ih =>
      rw [List.mem_cons, not_or] at h
      rw [records, if_neg fun hb => h.1 hb.symm]
      exact ih h.2

/-- The first line. -/
theorem records_append_sep (h : sep ∉ x) :
    records sep c (x ++ sep :: l) = (c ++ x) :: records sep [] l := by
  induction x generalizing c with
  | nil => rw [List.nil_append, records, if_pos rfl, List.append_nil]
  | cons b x ih =>
      rw [List.mem_cons, not_or] at h
      rw [List.cons_append, records, if_neg fun hb => h.1 hb.symm, ih h.2, List.append_assoc]
      rfl

/-- A text has no line, or a first one. -/
theorem exists_records (sep : α) (l : List α) :
    sep ∉ l ∨ ∃ x v, l = x ++ sep :: v ∧ sep ∉ x := by
  induction l with
  | nil => exact .inl List.not_mem_nil
  | cons b l ih =>
      by_cases hb : b = sep
      · exact .inr ⟨[], l, by rw [hb]; rfl, List.not_mem_nil⟩
      · rcases ih with h | ⟨x, v, rfl, hx⟩
        · exact .inl fun hmem => (List.mem_cons.mp hmem).elim (fun h' => hb h'.symm) h
        · exact .inr ⟨b :: x, v, rfl, fun hmem => (List.mem_cons.mp hmem).elim
            (fun h' => hb h'.symm) hx⟩

/-- **A line splits its text**: before it lie the lines before, behind it those behind. -/
theorem records_split (h : records sep [] l = rs ++ r :: rs') :
    ∃ u v, l = u ++ (r ++ sep :: v) ∧ (u = [] ∨ ∃ u', u = u' ++ [sep]) ∧ sep ∉ r ∧
      records sep [] u = rs ∧ records sep [] v = rs' ∧
      ∀ w, records sep [] (u ++ w) = rs ++ records sep [] w := by
  induction rs generalizing l with
  | nil =>
      rcases exists_records sep l with hl | ⟨x, v, rfl, hx⟩
      · rw [records_of_notMem hl] at h
        cases h
      · rw [records_append_sep hx] at h
        obtain ⟨rfl, rfl⟩ := List.cons.inj h
        exact ⟨[], v, rfl, .inl rfl, hx, rfl, rfl, fun _ => rfl⟩
  | cons r₀ rs ih =>
      rcases exists_records sep l with hl | ⟨x, v, rfl, hx⟩
      · rw [records_of_notMem hl] at h
        cases h
      · rw [records_append_sep hx] at h
        obtain ⟨rfl, hrest⟩ := List.cons.inj h
        obtain ⟨u, v', rfl, hu, hr, hus, hvs, happ⟩ := ih hrest
        have hfirst : ∀ w, records sep [] (x ++ sep :: u ++ w) = x :: (rs ++ records sep [] w) := by
          intro w
          rw [List.append_assoc, List.cons_append, records_append_sep hx, happ]
          rfl
        refine ⟨x ++ sep :: u, v', by simp, .inr ?_, hr, ?_, hvs, hfirst⟩
        · rcases hu with rfl | ⟨u', rfl⟩
          · exact ⟨x, rfl⟩
          · exact ⟨x ++ sep :: u', by simp⟩
        · rw [records_append_sep hx, hus]

/-- With more in front of the first line no more lines are short. -/
theorem length_shortLines_le (c x l : List α) :
    (shortLines cap sep (records sep (c ++ x) l)).length
      ≤ (shortLines cap sep (records sep x l)).length := by
  induction l generalizing x with
  | nil => exact Nat.le_refl _
  | cons b l ih =>
      rw [records, records]
      split_ifs with hb
      · by_cases hx : x.length < cap
        · rw [shortLines_cons_of_lt hx]
          by_cases hc : (c ++ x).length < cap
          · rw [shortLines_cons_of_lt hc]
            exact Nat.le_refl _
          · rw [shortLines_cons_of_le (Nat.not_lt.mp hc)]
            exact Nat.le_succ _
        · refine Nat.le_of_eq ?_
          rw [shortLines_cons_of_le (Nat.not_lt.mp hx),
            shortLines_cons_of_le (by rw [List.length_append]; omega)]
      · rw [List.append_assoc]
        exact ih (x ++ [b])

end Records

/-! ## The reader -/

/-- The lines of one chunk, and what is carried to the next one. -/
def readChunk (cap : ℕ) (sep : α) : List α → List α → List (List α) × List α
  | [], c => ([], c)
  | b :: bs, c =>
      if cap ≤ c.length then ([], [])   -- the buffer is full
      else if b = sep then
        let (ls, c') := readChunk cap sep bs []
        ((c ++ [sep]) :: ls, c')
      else readChunk cap sep bs (c ++ [b])

/-- **The reader**: the lines of a list of chunks, and what is carried at the end. -/
def readChunks (cap : ℕ) (sep : α) : List (List α) → List α → List (List α) × List α
  | [], c => ([], c)
  | bs :: chunks, c =>
      let (ls, c') := readChunk cap sep bs c
      let (ls', c'') := readChunks cap sep chunks c'
      (ls ++ ls', c'')

section Reader

variable {cap : ℕ} {sep : α} {c w bs : List α} {chunks chunks' : List (List α)} {r : List α}
  {rs : List (List α)}

/-- No separator is left when the buffer is full. -/
theorem OnlyLastFills.notMem {b : α} (h : OnlyLastFills cap (records sep c (b :: w)))
    (hc : cap ≤ c.length) : sep ∉ w ∧ shortLines cap sep (records sep c (b :: w)) = [] := by
  rw [records] at h ⊢
  split_ifs at h ⊢ with hb
  · have hlast := h.eq_nil hc
    have hw : sep ∉ w := fun hmem => by
      obtain hno | ⟨x, v, rfl, hx⟩ := exists_records sep w
      · exact hno hmem
      · rw [records_append_sep hx] at hlast
        cases hlast
    exact ⟨hw, by rw [hlast, shortLines_cons_of_le hc]; rfl⟩
  · obtain hno | ⟨x, v, rfl, hx⟩ := exists_records sep w
    · exact ⟨hno, by rw [records_of_notMem hno]; rfl⟩
    · rw [records_append_sep hx] at h
      have hlen := h.1 _ List.mem_cons_self
      simp only [List.length_append, List.length_singleton] at hlen
      omega

/-- **One chunk** of a text whose lines fit: its lines are handed on, and what is carried belongs to
the rest of the text. -/
theorem readChunk_eq (hfit : OnlyLastFills cap (records sep c (bs ++ w))) :
    shortLines cap sep (records sep c (bs ++ w)) = (readChunk cap sep bs c).1 ++
        shortLines cap sep (records sep (readChunk cap sep bs c).2 w) ∧
      OnlyLastFills cap (records sep (readChunk cap sep bs c).2 w) := by
  induction bs generalizing c with
  | nil => exact ⟨rfl, hfit⟩
  | cons b bs ih =>
      rw [readChunk]
      split_ifs with hc hb
      · rw [List.cons_append] at hfit ⊢
        obtain ⟨hno, hshort⟩ := hfit.notMem hc
        have hw : sep ∉ w := fun hmem => hno (List.mem_append_right _ hmem)
        refine ⟨?_, ?_⟩
        · rw [hshort, records_of_notMem hw]
          rfl
        · rw [records_of_notMem hw]
          exact ⟨fun _ => nofun, fun _ => nofun⟩
      · rw [List.cons_append, records, if_pos hb] at hfit ⊢
        obtain ⟨hlines, hrest⟩ := ih hfit.tail
        refine ⟨?_, hrest⟩
        rw [shortLines_cons_of_lt (Nat.not_le.mp hc), hlines]
        rfl
      · rw [List.cons_append, records, if_neg hb] at hfit ⊢
        exact ih hfit

/-- **All chunks** of a text whose lines fit. -/
theorem readChunks_eq (hfit : OnlyLastFills cap (records sep c chunks.flatten)) :
    (readChunks cap sep chunks c).1 = shortLines cap sep (records sep c chunks.flatten) := by
  induction chunks generalizing c with
  | nil => rfl
  | cons bs chunks ih =>
      obtain ⟨hlines, hrest⟩ := readChunk_eq hfit
      rw [List.flatten_cons, hlines, ← ih hrest]
      rfl

/-! One character a chunk. -/

theorem readChunks_append : readChunks cap sep (chunks ++ chunks') c
    = ((readChunks cap sep chunks c).1 ++
        (readChunks cap sep chunks' (readChunks cap sep chunks c).2).1,
      (readChunks cap sep chunks' (readChunks cap sep chunks c).2).2) := by
  induction chunks generalizing c with
  | nil => rfl
  | cons bs chunks ih =>
      simp only [List.cons_append, readChunks, ih, List.append_assoc]

/-- A chunk that finds the buffer full is given up. -/
theorem readChunk_of_full {b : α} (h : cap ≤ c.length) :
    readChunk cap sep (b :: bs) c = ([], []) := by
  rw [readChunk, if_pos h]

/-- The characters of a chunk without separator are collected. -/
theorem readChunk_of_notMem {x : List α} (hx : sep ∉ x) (hlen : c.length + x.length ≤ cap) :
    readChunk cap sep x c = ([], c ++ x) := by
  induction x generalizing c with
  | nil => rw [List.append_nil]; rfl
  | cons b x ih =>
      rw [List.mem_cons, not_or] at hx
      rw [List.length_cons] at hlen
      rw [readChunk, if_neg (by omega), if_neg fun hb => hx.1 hb.symm,
        ih hx.2 (by rw [List.length_append, List.length_singleton]; omega), List.append_assoc]
      rfl

/-- The characters of a line are collected. -/
theorem readChunks_singles {x : List α} (hx : sep ∉ x) (hlen : c.length + x.length ≤ cap) :
    readChunks cap sep (singles x) c = ([], c ++ x) := by
  induction x generalizing c with
  | nil => rw [List.append_nil]; rfl
  | cons b x ih =>
      rw [List.mem_cons, not_or] at hx
      rw [List.length_cons] at hlen
      have hrest := @ih (c ++ [b]) hx.2 (by rw [List.length_append, List.length_singleton]; omega)
      rw [List.append_assoc] at hrest
      simp only [singles, List.map_cons, readChunks, readChunk] at hrest ⊢
      rw [if_neg (by omega), if_neg fun hb => hx.1 hb.symm]
      simp only [hrest]
      rfl

/-- A line that fits is handed on. -/
theorem readChunks_line {x : List α} (hx : sep ∉ x) (hlen : x.length < cap) :
    readChunks cap sep (singles (x ++ [sep])) [] = ([x ++ [sep]], []) := by
  rw [singles, List.map_append, readChunks_append, ← singles,
    readChunks_singles hx (by rw [List.length_nil]; omega)]
  simp only [List.map_cons, List.map_nil, readChunks, readChunk, List.nil_append,
    if_neg (Nat.not_le.mpr hlen), if_pos, List.append_nil]

/-- Behind a separator nothing is carried. -/
theorem readChunks_singles_sep (u : List α) :
    (readChunks cap sep (singles (u ++ [sep])) c).2 = [] := by
  rw [singles, List.map_append, readChunks_append]
  simp only [List.map_cons, List.map_nil, readChunks, readChunk]
  split_ifs <;> rfl

/-- **One character a chunk**: every short line is handed on, and maybe others. -/
theorem length_shortLines_le_singles (l : List α) (hc : c.length ≤ cap) :
    (shortLines cap sep (records sep c l)).length
      ≤ (readChunks cap sep (singles l) c).1.length := by
  induction l generalizing c with
  | nil => exact Nat.le_refl _
  | cons b l ih =>
      have hnil := @ih [] (Nat.zero_le _)
      simp only [singles, List.map_cons, readChunks, readChunk] at hnil ih ⊢
      rw [records]
      by_cases hfull : cap ≤ c.length
      · rw [if_pos hfull]
        refine Nat.le_trans ?_ hnil
        split_ifs with hb
        · exact Nat.le_of_eq (by rw [shortLines_cons_of_le hfull])
        · have := @length_shortLines_le _ _ cap sep (c ++ [b]) [] l
          rwa [List.append_nil] at this
      · rw [if_neg hfull]
        split_ifs with hb
        · rw [shortLines_cons_of_lt (Nat.not_le.mp hfull), List.length_cons]
          exact Nat.succ_le_succ hnil
        · exact ih (by rw [List.length_append, List.length_singleton]; omega)

/-- Without a separator nothing is handed on. -/
theorem readChunks_of_notMem (h : sep ∉ chunks.flatten) : (readChunks cap sep chunks c).1 = [] := by
  rw [readChunks_eq (by rw [records_of_notMem h]; exact ⟨fun _ => nofun, fun _ => nofun⟩),
    records_of_notMem h]
  rfl

/-- One character a chunk, and no line that is too long by more than its separator: the short lines
are handed on. -/
theorem readChunks_singles_eq (l : List α) (hc : c.length ≤ cap)
    (hle : ∀ r ∈ records sep c l, r.length ≤ cap) :
    (readChunks cap sep (singles l) c).1 = shortLines cap sep (records sep c l) := by
  induction l generalizing c with
  | nil => rfl
  | cons b l ih =>
      have hnil := @ih [] (Nat.zero_le _)
      simp only [singles, List.map_cons, readChunks, readChunk] at hnil ih ⊢
      rw [records] at hle ⊢
      by_cases hfull : cap ≤ c.length
      · rw [if_pos hfull]
        split_ifs at hle ⊢ with hb
        · rw [shortLines_cons_of_le hfull]
          exact hnil fun r hr => hle r (List.mem_cons_of_mem _ hr)
        · -- a line that goes on here would be too long
          obtain hno | ⟨x, v, rfl, hx⟩ := exists_records sep l
          · rw [records_of_notMem hno]
            have := @readChunks_of_notMem _ _ cap sep [] (singles l) (by rwa [flatten_singles])
            simpa [singles, shortLines] using this
          · rw [records_append_sep hx] at hle
            have hlen := hle _ List.mem_cons_self
            simp only [List.length_append, List.length_singleton] at hlen
            omega
      · rw [if_neg hfull]
        split_ifs at hle ⊢ with hb
        · rw [shortLines_cons_of_lt (Nat.not_le.mp hfull),
            ← hnil fun r hr => hle r (List.mem_cons_of_mem _ hr)]
          rfl
        · exact ih (by rw [List.length_append, List.length_singleton]; omega) hle

/-! Lines that are too long. -/

/-- **A line that is too long** by more than its separator can be cut so that a part of it is handed
on. -/
theorem exists_cut_of_long (hcap : 2 ≤ cap) {x : List α} (hx : sep ∉ x) (hlong : cap < x.length) :
    ∃ chunks line, IsCut cap (x ++ [sep]) chunks ∧ readChunks cap sep chunks [] = ([line], []) := by
  induction hn : x.length using Nat.strongRecOn generalizing x with
  | ind n ih =>
      subst hn
      -- the chunk that finds the buffer full may have one character or two: one of them leaves no
      -- rest that fills the buffer again
      obtain ⟨d, hd, hdx, hd₂, hrest⟩ : ∃ d, 1 ≤ d ∧ d ≤ x.length - cap ∧ d ≤ 2 ∧
        x.length - cap - d ≠ cap := by
        by_cases h : x.length - cap - 1 = cap
        · exact ⟨2, by omega, by omega, by omega, by omega⟩
        · exact ⟨1, by omega, by omega, by omega, h⟩
      obtain ⟨x₁, x₂, x₃, rfl, h₁, h₂⟩ : ∃ x₁ x₂ x₃, x = x₁ ++ (x₂ ++ x₃) ∧ x₁.length = cap ∧
          x₂.length = d :=
        ⟨x.take cap, (x.drop cap).take d, (x.drop cap).drop d, by rw [List.take_append_drop,
          List.take_append_drop], by rw [List.length_take]; omega,
          by rw [List.length_take, List.length_drop]; omega⟩
      simp only [List.mem_append, not_or] at hx
      obtain ⟨hx₁, hx₂, hx₃⟩ := hx
      have hlen : x₃.length ≠ cap := by
        simp only [List.length_append] at hrest
        omega
      obtain ⟨b, bs, hb⟩ := List.exists_cons_of_ne_nil (l := x₂) (by rintro rfl; simp at h₂; omega)
      have hfull : readChunks cap sep (singles x₁ ++ [x₂]) [] = ([], []) := by
        rw [readChunks_append, readChunks_singles hx₁ (by rw [List.length_nil]; omega), hb]
        simp only [List.nil_append, readChunks, readChunk_of_full (Nat.le_of_eq h₁.symm)]
      have hcut : IsCut cap (x₁ ++ x₂) (singles x₁ ++ [x₂]) :=
        (IsCut.singles (by omega) x₁).append
          (.single (by rw [hb]; exact List.cons_ne_nil _ _) (by omega))
      obtain ⟨chunks, line, hchunks, hread⟩ : ∃ chunks line, IsCut cap (x₃ ++ [sep]) chunks ∧
          readChunks cap sep chunks [] = ([line], []) := by
        rcases Nat.lt_or_ge x₃.length cap with hshort | hge
        · exact ⟨_, _, IsCut.singles (by omega) _, readChunks_line hx₃ hshort⟩
        · have hlt : x₃.length < (x₁ ++ (x₂ ++ x₃)).length := by
            simp only [List.length_append]
            omega
          exact ih _ hlt hx₃ (by omega) rfl
      refine ⟨singles x₁ ++ [x₂] ++ chunks, line, ?_, ?_⟩
      · have hassoc : x₁ ++ (x₂ ++ x₃) ++ [sep] = x₁ ++ x₂ ++ (x₃ ++ [sep]) := by simp
        rw [hassoc]
        exact hcut.append hchunks
      · rw [readChunks_append, hfull, hread]
        rfl

/-- One character a chunk, up to a separator: nothing is carried. -/
theorem readChunks_complete {u : List α} (hu : u = [] ∨ ∃ u', u = u' ++ [sep]) :
    (readChunks cap sep (singles u) []).2 = [] := by
  rcases hu with rfl | ⟨u', rfl⟩
  · rfl
  · exact readChunks_singles_sep u'

/-- A line that is too long by more than its separator: a part of it is handed on, and every short
line. -/
theorem exists_cut_of_lt {l : List α} (hcap : 2 ≤ cap) (hr : r ∈ records sep [] l)
    (hlong : cap < r.length) :
    ∃ chunks, IsCut cap l chunks ∧
      (readChunks cap sep chunks []).1 ≠ shortLines cap sep (records sep [] l) := by
  obtain ⟨rs, rs', hrs⟩ := List.append_of_mem hr
  obtain ⟨u, v, rfl, hu, hsep, hus, hvs, -⟩ := records_split hrs
  obtain ⟨chunks, line, hcut, hread⟩ := exists_cut_of_long hcap hsep hlong
  refine ⟨singles u ++ (chunks ++ singles v), ?_, fun heq => ?_⟩
  · have hsplit : u ++ (r ++ sep :: v) = u ++ (r ++ [sep] ++ v) := by simp
    rw [hsplit]
    exact (IsCut.singles (by omega) u).append (hcut.append (.singles (by omega) v))
  · -- more lines than the short ones are handed on
    have hlen := congrArg List.length heq
    rw [readChunks_append, readChunks_complete hu, readChunks_append, hread, hrs, shortLines_append,
      shortLines_cons_of_le (Nat.le_of_lt hlong)] at hlen
    simp only [List.length_append, List.length_singleton] at hlen
    have hbefore := @length_shortLines_le_singles _ _ cap sep [] u (Nat.zero_le _)
    have hafter := @length_shortLines_le_singles _ _ cap sep [] v (Nat.zero_le _)
    rw [hus] at hbefore
    rw [hvs] at hafter
    omega

/-- A line that fills the buffer, with another one behind it: the two lines can be cut so that a
part of the other one is given up with the separator. -/
theorem exists_cut_of_eq {l : List α} (hcap : 2 ≤ cap)
    (hle : ∀ r ∈ records sep [] l, r.length ≤ cap) (hr : r ∈ (records sep [] l).dropLast)
    (hfull : cap ≤ r.length) :
    ∃ chunks, IsCut cap l chunks ∧
      (readChunks cap sep chunks []).1 ≠ shortLines cap sep (records sep [] l) := by
  obtain ⟨rs, rs₁, hdrop⟩ := List.append_of_mem hr
  have hne : records sep [] l ≠ [] := by
    intro hnil
    rw [hnil] at hr
    cases hr
  obtain ⟨r', rs', hrs'⟩ : ∃ r' rs', rs₁ ++ [(records sep [] l).getLast hne] = r' :: rs' :=
    List.exists_cons_of_ne_nil (by simp)
  have hrs : records sep [] l = rs ++ r :: r' :: rs' := by
    rw [← hrs', ← List.cons_append, ← List.append_assoc, ← hdrop, List.dropLast_append_getLast]
  rw [hrs] at hle ⊢
  obtain ⟨u, v, rfl, hu, hsep, hus, hvs, -⟩ := records_split hrs
  have hlen : r.length = cap := Nat.le_antisymm (hle r (by simp)) hfull
  have hu' : (readChunks cap sep (singles u) []).1 = shortLines cap sep rs := by
    rw [readChunks_singles_eq u (Nat.zero_le _) fun r₁ hr₁ => hle r₁ (by
      rw [hus] at hr₁
      exact List.mem_append_left _ hr₁), hus]
  obtain ⟨x, v', rfl, hx⟩ : ∃ x v', v = x ++ sep :: v' ∧ sep ∉ x := by
    rcases exists_records sep v with hno | h
    · rw [records_of_notMem hno] at hvs
      cases hvs
    · exact h
  rw [records_append_sep hx] at hvs
  obtain ⟨rfl, hrest⟩ := List.cons.inj hvs
  rw [List.nil_append] at hle ⊢
  -- the separator of the line is given up together with the first character behind it
  have hread : ∀ b w,
      (readChunks cap sep (singles u ++ (singles r ++ ([[sep, b]] ++ singles w))) []).1
      = shortLines cap sep rs ++ (readChunks cap sep (singles w) []).1 := by
    intro b w
    rw [readChunks_append, readChunks_complete hu, hu', readChunks_append,
      readChunks_singles hsep (by rw [List.length_nil]; omega), readChunks_append]
    simp only [List.nil_append, readChunks, readChunk_of_full hfull]
  have hcut : ∀ b w, IsCut cap (u ++ (r ++ ([sep, b] ++ w)))
      (singles u ++ (singles r ++ ([[sep, b]] ++ singles w))) := fun b w =>
    (IsCut.singles (by omega) u).append ((IsCut.singles (by omega) r).append
      ((IsCut.single (List.cons_ne_nil _ _) hcap).append (.singles (by omega) w)))
  have hafter : ∀ w ws, records sep [] w = ws → (∀ r ∈ ws, r.length ≤ cap) →
      (readChunks cap sep (singles w) []).1 = shortLines cap sep ws := by
    rintro w _ rfl hws
    exact readChunks_singles_eq w (Nat.zero_le _) hws
  have hrest' : ∀ r ∈ rs', r.length ≤ cap := fun r₁ hr₁ => hle r₁ (by simp [hr₁])
  cases x with
  | nil =>
      -- the line behind is empty, and is not handed on at all
      refine ⟨_, hcut sep v', fun heq => ?_⟩
      rw [hread, hafter v' rs' hrest hrest', shortLines_append, shortLines_cons_of_le hfull,
        shortLines_cons_of_lt (by rw [List.length_nil]; omega)] at heq
      have hlengths := congrArg List.length heq
      simp only [List.length_append, List.length_cons] at hlengths
      omega
  | cons b y =>
      -- the line behind is handed on without its first character
      refine ⟨_, hcut b (y ++ sep :: v'), fun heq => ?_⟩
      rw [List.mem_cons, not_or] at hx
      have hylen : y.length + 1 ≤ cap := hle (b :: y) (by simp)
      have hy : ∀ r ∈ y :: rs', r.length ≤ cap :=
        List.forall_mem_cons.mpr ⟨Nat.le_of_succ_le hylen, hrest'⟩
      rw [hread, hafter _ (y :: rs') (by rw [records_append_sep hx.2, hrest, List.nil_append]) hy,
        shortLines_append, shortLines_cons_of_le hfull, shortLines_cons_of_lt (by omega)] at heq
      have heq := List.append_cancel_left heq
      by_cases hlt : (b :: y).length < cap
      · rw [shortLines_cons_of_lt hlt] at heq
        have hlengths := congrArg List.length (List.cons.inj heq).1
        simp only [List.length_append, List.length_cons] at hlengths
        omega
      · rw [shortLines_cons_of_le (Nat.not_lt.mp hlt)] at heq
        have hlengths := congrArg List.length heq
        simp only [List.length_cons] at hlengths
        omega

/-- **For which texts the reader hands on exactly the lines that fit**, however they are cut. -/
theorem readChunks_eq_iff (hcap : 2 ≤ cap) (l : List α) :
    (∀ chunks, IsCut cap l chunks →
        (readChunks cap sep chunks []).1 = shortLines cap sep (records sep [] l)) ↔
      OnlyLastFills cap (records sep [] l) := by
  constructor
  · intro h
    have hle : ∀ r ∈ records sep [] l, r.length ≤ cap := by
      intro r hr
      by_contra hlong
      obtain ⟨chunks, hcut, hne⟩ := exists_cut_of_lt hcap hr (Nat.not_le.mp hlong)
      exact hne (h chunks hcut)
    refine ⟨hle, fun r hr => ?_⟩
    by_contra hfull
    obtain ⟨chunks, hcut, hne⟩ := exists_cut_of_eq hcap hle hr (Nat.not_lt.mp hfull)
    exact hne (h chunks hcut)
  · intro h chunks hcut
    rw [readChunks_eq (by rw [hcut.flatten]; exact h), hcut.flatten]

end Reader

end Vsc.Lib
