import Gradual.Command.Files
import Gradual.Proofs.Command.Path

/-!
# Files in a tree of directories

In a tree of directories whose entries have names of their own, a path in normal form leads from
entry to entry, and what is listed below a path is what the paths that go on from there lead to.

* `Node.WellNamed`: the names of entries;
* `Node.walk_append`, `Node.find_below`: going on from what was found at a path;
* `Node.HasSource`: a source file at or below some paths;
* `Node.mem_sources_iff`: what is listed for one path;
* **`sourceFiles_eq_ok`**: what is listed for several paths, and in which order.
-/

namespace Gradual

/-- In each directory the entries have different names, and each name is one segment of a path. -/
inductive Node.WellNamed : Node → Prop
  | file (contents : ByteArray) : WellNamed (.file contents)
  | directory {entries : List (String × Node)} (distinct : (entries.map (·.1)).Nodup)
      (named : ∀ e ∈ entries, Path.IsName e.1.toList ∧ '/' ∉ e.1.toList)
      (inside : ∀ e ∈ entries, e.2.WellNamed) : WellNamed (.directory entries)

namespace Node

variable {root node : Node} {path x : String} {contents : ByteArray}

/-! ## Following a path -/

theorem lookup_eq_some_iff {entries : List (String × Node)} (h : (entries.map (·.1)).Nodup)
    {name : String} {n : Node} : entries.lookup name = some n ↔ (name, n) ∈ entries := by
  induction entries with
  | nil => simp
  | cons e entries ih =>
    obtain ⟨m, k⟩ := e
    obtain ⟨hm, hrest⟩ := List.nodup_cons.1 h
    rw [List.lookup_cons, List.mem_cons, Prod.mk.injEq]
    by_cases hname : name = m
    · subst hname
      have hnone : (name, n) ∉ entries := fun hn => hm (List.mem_map.2 ⟨_, hn, rfl⟩)
      simp [hnone, eq_comm]
    · have hbeq : (name == m) = false := by simpa using hname
      simp [hbeq, hname, ih hrest]

section Walk

variable {around : List Node} {s : List Char} {rest ss ts : List (List Char)}

theorem walk_file : walk around (file contents) (s :: rest) = .error .notDirectory := by
  rw [walk]

theorem walk_directory {entries : List (String × Node)} (h : Path.IsName s) :
    walk around (directory entries) (s :: rest) = (entries.lookup (String.ofList s)).elim
      (.error .missing) fun next => walk (directory entries :: around) next rest := by
  obtain ⟨hempty, hdot, hdots⟩ := h
  rw [walk]
  · cases entries.lookup (String.ofList s) <;> rfl
  · exact hempty
  · exact hdot
  · exact fun hs => absurd hs hdots
  · exact fun _ _ hs => absurd hs hdots

/-- Along names nothing depends on the directories around. -/
theorem walk_around (h : ∀ s ∈ ss, Path.IsName s) (around around' : List Node) (here : Node) :
    walk around here ss = walk around' here ss := by
  induction ss generalizing around around' here with
  | nil => rfl
  | cons s rest ih =>
    obtain ⟨hs, hrest⟩ := List.forall_mem_cons.1 h
    cases here with
    | file contents => rw [walk_file, walk_file]
    | directory entries =>
      rw [walk_directory hs, walk_directory hs]
      cases entries.lookup (String.ofList s) with
      | none => rfl
      | some next => exact ih hrest _ _ next

theorem walk_append (hss : ∀ s ∈ ss, Path.IsName s) (hts : ∀ s ∈ ts, Path.IsName s)
    (around : List Node) (here : Node) :
    walk around here (ss ++ ts) = (walk around here ss).bind fun n => walk [] n ts := by
  induction ss generalizing around here with
  | nil => exact walk_around hts around [] here
  | cons s rest ih =>
    obtain ⟨hs, hrest⟩ := List.forall_mem_cons.1 hss
    cases here with
    | file contents =>
      rw [List.cons_append, walk_file, walk_file]
      rfl
    | directory entries =>
      rw [List.cons_append, walk_directory hs, walk_directory hs]
      cases entries.lookup (String.ofList s) with
      | none => rfl
      | some next => exact ih hrest _ next

theorem WellNamed.walk (h : root.WellNamed) (hss : ∀ s ∈ ss, Path.IsName s)
    (hwalk : root.walk around ss = .ok node) : node.WellNamed := by
  induction ss generalizing around root with
  | nil =>
    cases hwalk
    exact h
  | cons s rest ih =>
    obtain ⟨hs, hrest⟩ := List.forall_mem_cons.1 hss
    cases h with
    | file contents =>
      rw [walk_file] at hwalk
      cases hwalk
    | @directory entries distinct named inside =>
      rw [walk_directory hs] at hwalk
      cases hnext : entries.lookup (String.ofList s) with
      | none =>
        rw [hnext] at hwalk
        cases hwalk
      | some next =>
        rw [hnext] at hwalk
        exact ih (inside _ ((lookup_eq_some_iff distinct).1 hnext)) hrest hwalk

end Walk

theorem find_eq_walk (h : Path.Normal path) :
    root.find path = root.walk [] (Path.segments path.toList) := by
  rw [find]
  split
  next hs => exact absurd rfl (h [] (by simp [hs])).1
  next => rfl

/-- What is found further on from a path is found from what is there. -/
theorem find_below (hp : Path.Normal path) (hx : Path.Normal x) {names : List (List Char)}
    (hnames : Path.segments x.toList = Path.segments path.toList ++ names)
    (hfind : root.find path = .ok node) : root.find x = node.walk [] names := by
  have hrest : ∀ s ∈ names, Path.IsName s := fun s hs => hx s (by simp [hnames, hs])
  rw [find_eq_walk hp] at hfind
  rw [find_eq_walk hx, hnames, walk_append hp hrest, hfind]
  rfl

theorem WellNamed.find (h : root.WellNamed) (hp : Path.Normal path)
    (hfind : root.find path = .ok node) : node.WellNamed := by
  rw [find_eq_walk hp] at hfind
  exact h.walk hp hfind

/-! ## Source files below a path -/

/-- There is a file with the extension `py` at the path `x`, which is one of `paths` or lies below
one. -/
structure HasSource (root : Node) (paths : List String) (x : String) (contents : ByteArray) :
    Prop where
  normal : Path.Normal x
  reached : ∃ p ∈ paths, Path.Reaches p x
  found : root.find x = .ok (.file contents)
  source : Path.HasExtension "py" x

theorem entrySources_eq_flatMap (path : String) (entries : List (String × Node)) :
    entrySources path entries = entries.flatMap fun e => e.2.sources (Path.child path e.1) := by
  induction entries with
  | nil => rfl
  | cons e entries ih => rw [entrySources, ih, List.flatMap_cons]

/-- The file at a path is the only one there. -/
theorem mem_sources_file (hp : Path.Normal path) (hfind : root.find path = .ok (.file contents))
    {bytes : ByteArray} :
    (x, bytes) ∈ (file contents).sources path ↔ root.HasSource [path] x bytes := by
  rw [sources]
  constructor
  · intro hmem
    split at hmem
    next hsource =>
      obtain ⟨rfl, rfl⟩ := Prod.mk.inj (List.mem_singleton.1 hmem)
      exact ⟨hp, ⟨x, List.mem_cons_self, List.prefix_rfl⟩, hfind, (Path.isSource_iff hp).1 hsource⟩
    next => cases hmem
  · rintro ⟨hx, ⟨p, hmem, names, hnames⟩, hfound, hsource⟩
    rw [List.mem_singleton.1 hmem] at hnames
    rw [find_below hp hx hnames.symm hfind] at hfound
    cases names with
    | nil =>
      have heq : x = path :=
        String.toList_inj.1 (Path.segments_injective (by rw [← hnames, List.append_nil]))
      cases hfound
      rw [heq] at hsource ⊢
      rw [if_pos ((Path.isSource_iff hp).2 hsource)]
      exact List.mem_singleton_self _
    | cons s rest =>
      rw [walk_file] at hfound
      cases hfound

/-- **What is listed for a path** are the source files at the path and below. -/
theorem mem_sources_iff (hnode : node.WellNamed) (hp : Path.Normal path)
    (hfind : root.find path = .ok node) {bytes : ByteArray} :
    (x, bytes) ∈ node.sources path ↔ root.HasSource [path] x bytes := by
  induction hnode generalizing path with
  | file contents => exact mem_sources_file hp hfind
  | @directory entries distinct named inside ih =>
    -- An entry is found at the path that is listed for it.
    have hentry : ∀ e ∈ entries, Path.Normal (Path.child path e.1) ∧
        root.find (Path.child path e.1) = .ok e.2 := by
      intro e he
      obtain ⟨hname, hslash⟩ := named e he
      have hchild := Path.normal_child hp hname hslash
      refine ⟨hchild, ?_⟩
      rw [find_below hp hchild (Path.segments_child hp hslash) hfind, walk_directory hname,
        String.ofList_toList, (lookup_eq_some_iff distinct).2 he]
      rfl
    rw [sources, entrySources_eq_flatMap, List.mem_flatMap]
    constructor
    · rintro ⟨e, he, hmem⟩
      obtain ⟨hchild, hfound⟩ := hentry e he
      obtain ⟨hx, ⟨p, hpmem, hreach⟩, hfile, hsource⟩ := (ih e he hchild hfound).1 hmem
      rw [List.mem_singleton.1 hpmem] at hreach
      refine ⟨hx, ⟨path, List.mem_cons_self, ?_⟩, hfile, hsource⟩
      exact (Path.reaches_child hp (named e he).2).trans hreach
    · rintro ⟨hx, ⟨p, hpmem, names, hnames⟩, hfile, hsource⟩
      rw [List.mem_singleton.1 hpmem] at hnames
      have hwalk := hfile
      rw [find_below hp hx hnames.symm hfind] at hwalk
      cases names with
      | nil => cases hwalk
      | cons s rest =>
        have hs : Path.IsName s := hx s (by simp [← hnames])
        rw [walk_directory hs] at hwalk
        cases hnext : entries.lookup (String.ofList s) with
        | none =>
          rw [hnext] at hwalk
          cases hwalk
        | some next =>
          have he := (lookup_eq_some_iff distinct).1 hnext
          obtain ⟨hchild, hfound⟩ := hentry _ he
          refine ⟨_, he, (ih _ he hchild hfound).2 ⟨hx, ⟨_, List.mem_cons_self, rest, ?_⟩, hfile,
            hsource⟩⟩
          rw [Path.segments_child hp (named _ he).2, String.toList_ofList, List.append_assoc]
          exact hnames

/-- The source files at or below some paths, each of them once and in the order of paths. -/
structure Lists (root : Node) (paths : List String) (samples : List (String × ByteArray)) :
    Prop where
  ordered : samples.Pairwise fun a b => Path.cmp a.1 b.1 = .lt
  mem_iff : ∀ x contents, (x, contents) ∈ samples ↔ root.HasSource paths x contents

instance : Std.TransCmp fun a b : String × ByteArray => Path.cmp a.1 b.1 where
  eq_swap {a b} := @Std.OrientedCmp.eq_swap _ Path.cmp _ a.1 b.1
  isLE_trans {a b c} := @Std.TransCmp.isLE_trans _ Path.cmp _ a.1 b.1 c.1

/-- Paths that lead to the same source files have the same list of them. -/
theorem Lists.unique {paths paths' : List String} {samples samples' : List (String × ByteArray)}
    (h : root.Lists paths samples) (h' : root.Lists paths' samples')
    (hsame : ∀ x contents, root.HasSource paths x contents ↔ root.HasSource paths' x contents) :
    samples = samples' :=
  Sorted.IsSorted.eq_of_mem_iff h.ordered h'.ordered fun a =>
    (h.mem_iff a.1 a.2).trans ((hsame a.1 a.2).trans (h'.mem_iff a.1 a.2).symm)

/-- More paths that lie at or below those given lead to no other source files. -/
theorem HasSource.mono {paths paths' : List String}
    (hreach : ∀ p ∈ paths, ∃ p' ∈ paths', Path.Reaches p' p) (h : root.HasSource paths x contents) :
    root.HasSource paths' x contents := by
  obtain ⟨hx, ⟨p, hp, hpx⟩, hfound, hsource⟩ := h
  obtain ⟨p', hp', hpp⟩ := hreach p hp
  exact ⟨hx, ⟨p', hp', hpp.trans hpx⟩, hfound, hsource⟩

end Node

section SourceFiles

variable {root : Node} {paths : List String}

theorem mapM_eq_ok {α β ε : Type} {f : α → Except ε β} {g : α → β} {l : List α}
    (h : ∀ a ∈ l, f a = .ok (g a)) : l.mapM f = .ok (l.map g) := by
  induction l with
  | nil => rfl
  | cons a l ih =>
    obtain ⟨ha, hl⟩ := List.forall_mem_cons.1 h
    rw [List.mapM_cons, ha, ih hl]
    rfl

/-- What is listed for a path, if there is something. -/
def Files.sourcesAt (files : Files) (path : String) : List (String × ByteArray) :=
  (files path).toOption.elim [] (Node.sources path)

theorem mem_sourcesAt_iff {p x : String} {contents : ByteArray} (hroot : root.WellNamed)
    (hp : Path.Normal p) (hexists : ∃ node, root.find p = .ok node) :
    (x, contents) ∈ Files.sourcesAt root.find p ↔ root.HasSource [p] x contents := by
  obtain ⟨node, hnode⟩ := hexists
  rw [Files.sourcesAt, hnode]
  exact Node.mem_sources_iff (hroot.find hp hnode) hp hnode

theorem mem_flatMap_sourcesAt_iff {x : String} {contents : ByteArray} (hroot : root.WellNamed)
    (hnormal : ∀ p ∈ paths, Path.Normal p)
    (hexists : ∀ p ∈ paths, ∃ node, root.find p = .ok node) :
    (x, contents) ∈ paths.flatMap (Files.sourcesAt root.find) ↔
      root.HasSource paths x contents := by
  rw [List.mem_flatMap]
  constructor
  · rintro ⟨p, hp, hx⟩
    have hone := (mem_sourcesAt_iff hroot (hnormal p hp) (hexists p hp)).1 hx
    exact hone.mono (by simpa using ⟨p, hp, List.prefix_rfl⟩)
  · rintro ⟨hx, ⟨p, hp, hreach⟩, hfile, hsource⟩
    refine ⟨p, hp, (mem_sourcesAt_iff hroot (hnormal p hp) (hexists p hp)).2 ?_⟩
    exact ⟨hx, ⟨p, List.mem_cons_self, hreach⟩, hfile, hsource⟩

/-- **The source files at some paths and below** are found if there is something at each path. -/
theorem sourceFiles_eq_ok (hroot : root.WellNamed) (hnormal : ∀ p ∈ paths, Path.Normal p)
    (hexists : ∀ p ∈ paths, ∃ node, root.find p = .ok node) :
    ∃ samples, sourceFiles root.find paths = .ok samples ∧ root.Lists paths samples := by
  -- Paths that compare as equal are the same, and there is one file at a path.
  have hdistinct : ∀ a ∈ paths.flatMap (Files.sourcesAt root.find),
      ∀ b ∈ paths.flatMap (Files.sourcesAt root.find), Path.cmp a.1 b.1 = .eq → a = b := by
    rintro ⟨x, bytes⟩ hx ⟨y, bytes'⟩ hy heq
    have hx := (mem_flatMap_sourcesAt_iff hroot hnormal hexists).1 hx
    have hy := (mem_flatMap_sourcesAt_iff hroot hnormal hexists).1 hy
    obtain rfl : x = y := Path.eq_of_cmp hx.normal hy.normal heq
    have hfile := hx.found.symm.trans hy.found
    cases hfile
    rfl
  refine ⟨_, ?_, Sorted.isSorted_ofList (paths.flatMap (Files.sourcesAt root.find)),
    fun x contents => ?_⟩
  · rw [sourceFiles, mapM_eq_ok (g := Files.sourcesAt root.find)]
    · rfl
    · intro p hp
      obtain ⟨node, hnode⟩ := hexists p hp
      rw [Files.sourcesAt, hnode]
      rfl
  · rw [Sorted.mem_ofList_of_distinct hdistinct, mem_flatMap_sourcesAt_iff hroot hnormal hexists]

end SourceFiles

end Gradual
