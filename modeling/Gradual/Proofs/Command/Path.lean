import Gradual.Command.Path
import Gradual.Proofs.Sorted

/-!
# Paths in normal form

A path in normal form is given by its segments, each of which names an entry of a directory. Such
paths are the same if they have the same parts, so their order is a linear one.

* `Path.segments_injective`, `Path.segments_child`: the segments of a path and of an entry below it;
* `Path.IsName`, `Path.Normal`: paths without empty segments, `.` and `..`;
* `Path.Reaches`: a path lies at or below another one;
* `Path.parts_of_normal`, **`Path.eq_of_cmp`**: the order of paths;
* `Path.HasExtension`, **`Path.isSource_iff`**: the paths that name source files.
-/

namespace Gradual.Path

/-! ## Segments -/

theorem segments_eq_splitOn (cs : List Char) : segments cs = cs.splitOn '/' := by
  induction cs with
  | nil => rfl
  | cons c cs ih =>
    rw [segments, ih, List.splitOn_cons_eq_if_modifyHead]
    by_cases hc : c = '/'
    · simp [hc]
    · cases h : cs.splitOn '/' with
      | nil => exact absurd h (List.splitOn_ne_nil _ _)
      | cons s ss => simp [hc]

theorem segments_injective : Function.Injective segments := by
  intro a b h
  rw [segments_eq_splitOn, segments_eq_splitOn] at h
  have hjoin := congrArg (['/'].intercalate ·) h
  simpa using hjoin

theorem segments_append_slash (a b : List Char) :
    segments (a ++ '/' :: b) = segments a ++ segments b := by
  simp only [segments_eq_splitOn, List.splitOn_append_cons_self]

theorem segments_of_not_mem {s : List Char} (h : '/' ∉ s) : segments s = [s] := by
  rw [segments_eq_splitOn, List.splitOn_eq_singleton h]

/-- A path is its last segment, or has it behind its last slash. -/
theorem exists_last_segment (cs : List Char) :
    ∃ s, (segments cs).getLast? = some s ∧ '/' ∉ s ∧
      (cs = s ∨ ∃ before, cs = before ++ '/' :: s) := by
  induction cs with
  | nil => exact ⟨[], rfl, List.not_mem_nil, .inl rfl⟩
  | cons c cs ih =>
    obtain ⟨s, -, hs, rfl | ⟨before, rfl⟩⟩ := ih
    · by_cases hc : c = '/'
      · exact ⟨cs, by simp [hc, segments, segments_of_not_mem hs], hs, .inr ⟨[], by simp [hc]⟩⟩
      · have hcs : '/' ∉ c :: cs := by simpa [eq_comm, hc] using hs
        exact ⟨c :: cs, by simp [segments_of_not_mem hcs], hcs, .inl rfl⟩
    · refine ⟨s, ?_, hs, .inr ⟨c :: before, rfl⟩⟩
      rw [← List.cons_append, segments_append_slash, segments_of_not_mem hs, List.getLast?_concat]

/-! ## Normal forms -/

/-- The segment names an entry of a directory. -/
def IsName (s : List Char) : Prop := s ≠ [] ∧ s ≠ ['.'] ∧ s ≠ ['.', '.']

instance (s : List Char) : Decidable (IsName s) := inferInstanceAs (Decidable (_ ∧ _))

/-- All segments of the path name entries of directories. -/
def Normal (path : String) : Prop := ∀ s ∈ segments path.toList, IsName s

instance (path : String) : Decidable (Normal path) := inferInstanceAs (Decidable (∀ s ∈ _, _))

/-- The path `b` is `a` or lies below it. -/
def Reaches (a b : String) : Prop := segments a.toList <+: segments b.toList

instance (a b : String) : Decidable (Reaches a b) := inferInstanceAs (Decidable (_ <+: _))

theorem Reaches.trans {a b c : String} (h : Reaches a b) (h' : Reaches b c) : Reaches a c :=
  List.IsPrefix.trans h h'

theorem getLast?_ne_slash {path : String} (h : Normal path) :
    path.toList.getLast? ≠ some '/' := by
  intro hlast
  obtain ⟨cs, hcs⟩ := List.getLast?_eq_some_iff.1 hlast
  have hempty : [] ∈ segments path.toList := by
    rw [hcs, segments_append_slash]
    simp [segments]
  exact (h [] hempty).1 rfl

theorem segments_child {directory name : String} (h : Normal directory) (hn : '/' ∉ name.toList) :
    segments (child directory name).toList = segments directory.toList ++ [name.toList] := by
  have hslash : (directory ++ "/" ++ name).toList = directory.toList ++ '/' :: name.toList := by
    simp
  rw [child, if_neg (getLast?_ne_slash h), hslash, segments_append_slash, segments_of_not_mem hn]

theorem normal_child {directory name : String} (h : Normal directory) (hname : IsName name.toList)
    (hn : '/' ∉ name.toList) : Normal (child directory name) := by
  intro s hs
  rw [segments_child h hn] at hs
  rcases List.mem_append.1 hs with hs | hs
  · exact h s hs
  · rw [List.mem_singleton.1 hs]
    exact hname

theorem reaches_child {directory name : String} (h : Normal directory) (hn : '/' ∉ name.toList) :
    Reaches directory (child directory name) := by
  rw [Reaches, segments_child h hn]
  exact List.prefix_append _ _

/-! ## The order of paths -/

theorem Part.ofSegment?_of_isName {s : List Char} (h : IsName s) :
    Part.ofSegment? s = some (.entry (String.ofList s)) := by
  obtain ⟨hempty, hdot, hdots⟩ := h
  unfold Part.ofSegment?
  split
  · exact absurd rfl hempty
  · exact absurd rfl hdot
  · exact absurd rfl hdots
  · rfl

theorem parts_of_normal {path : String} (h : Normal path) :
    parts path = (segments path.toList).map fun s => .entry (String.ofList s) := by
  have hall : (segments path.toList).filterMap Part.ofSegment? =
      (segments path.toList).map fun s => .entry (String.ofList s) := by
    rw [← List.filterMap_eq_map]
    exact List.filterMap_congr fun s hs => Part.ofSegment?_of_isName (h s hs)
  unfold parts
  split
  next hs => exact absurd rfl (h [] (by simp [hs])).1
  next hs => exact absurd rfl (h ['.'] (by simp [hs])).2.1
  next => exact hall

/-- The name of an entry. -/
def Part.name : Part → String
  | entry name => name
  | _ => ""

theorem Part.cmp_eq_compareLex (a b : Part) :
    a.cmp b = compareLex (compareOn rank) (compareOn name) a b := by
  cases a <;> cases b <;> rfl

instance : Std.TransCmp Part.cmp := by
  rw [funext₂ Part.cmp_eq_compareLex]
  infer_instance

instance : Std.LawfulEqCmp Part.cmp where
  eq_of_compare {a b} h := by
    cases a <;> cases b <;> simp_all [Part.cmp, Part.rank]

theorem cmpParts_eq_compareLex (as bs : List Part) : cmpParts as bs = as.compareLex Part.cmp bs :=
  eq_compareLex rfl (fun _ _ => rfl) (fun _ _ => rfl) (fun _ _ _ _ => rfl) as bs

instance : Std.TransCmp cmpParts := by
  rw [funext₂ cmpParts_eq_compareLex]
  infer_instance

instance : Std.LawfulEqCmp cmpParts := by
  rw [funext₂ cmpParts_eq_compareLex]
  infer_instance

instance : Std.TransCmp cmp where
  eq_swap {a b} := @Std.OrientedCmp.eq_swap _ cmpParts _ (parts a) (parts b)
  isLE_trans {a b c} := @Std.TransCmp.isLE_trans _ cmpParts _ (parts a) (parts b) (parts c)

/-- **Paths in normal form that compare as equal are the same.** -/
theorem eq_of_cmp {a b : String} (ha : Normal a) (hb : Normal b) (h : cmp a b = .eq) : a = b := by
  have hparts : parts a = parts b := Std.LawfulEqCmp.eq_of_compare h
  rw [parts_of_normal ha, parts_of_normal hb] at hparts
  have hentry : Function.Injective fun s => Part.entry (String.ofList s) := by
    intro s t hst
    simpa using congrArg String.toList (Part.entry.inj hst)
  exact String.toList_inj.1 (segments_injective (hentry.list_map hparts))

/-! ## Source files -/

/-- The path has the extension `ext`: its last segment ends in a dot and `ext`, and is longer. -/
def HasExtension (ext path : String) : Prop :=
  ∃ (before : List Char) (c : Char), path.toList = before ++ c :: '.' :: ext.toList ∧ c ≠ '/'

/-- An end of a path without a slash is an end of its last segment. -/
theorem suffix_last_segment {cs s ending : List Char}
    (hs : cs = s ∨ ∃ before, cs = before ++ '/' :: s) (hend : ending <:+ cs) (hn : '/' ∉ ending) :
    ending <:+ s := by
  rcases hs with rfl | ⟨before, rfl⟩
  · exact hend
  · rcases List.suffix_or_suffix_of_suffix hend ⟨before, rfl⟩ with hle | hle
    · rcases List.suffix_cons_iff.1 hle with rfl | hle
      · exact absurd List.mem_cons_self hn
      · exact hle
    · exact absurd (hle.subset List.mem_cons_self) hn

/-- **Which paths name source files**: those with the extension `py`. -/
theorem isSource_iff {path : String} (h : Normal path) :
    isSource path = true ↔ HasExtension "py" path := by
  have hpy : '.' :: "py".toList = extension := by decide
  obtain ⟨s, hlast, hs, hpath⟩ := exists_last_segment path.toList
  have hsource : isSource path = true ↔ extension <:+ s ∧ s ≠ extension := by
    rw [isSource, parts_of_normal h, List.getLast?_map, hlast]
    simp
  rw [hsource, HasExtension, hpy]
  constructor
  · rintro ⟨⟨stem, rfl⟩, hne⟩
    obtain ⟨stem, c, rfl⟩ := List.eq_nil_or_concat stem |>.resolve_left fun h => hne (by simp [h])
    have hc : c ≠ '/' := by
      rintro rfl
      simp at hs
    rcases hpath with hpath | ⟨before, hpath⟩
    · exact ⟨stem, c, by simp [hpath], hc⟩
    · exact ⟨before ++ '/' :: stem, c, by simp [hpath], hc⟩
  · rintro ⟨before, c, heq, hc⟩
    have hslash : '/' ∉ c :: extension := by simp [extension, hc.symm]
    have hsuffix : c :: extension <:+ s := suffix_last_segment hpath ⟨before, heq.symm⟩ hslash
    refine ⟨(List.suffix_cons c extension).trans hsuffix, ?_⟩
    rintro rfl
    exact Nat.not_succ_le_self _ hsuffix.length_le

end Gradual.Path
