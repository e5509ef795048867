import Mathlib.Data.List.Infix
import Mathlib.Data.List.Nodup

/-!
How the test script finds its queries.

A search walks through the directories below the root of the repository and keeps the query
files that lie beside a driver snippet. The name of a test is the name of the directory its
query lies in, and the type of its driver is what follows `drivers` on the path.
-/

namespace DriverQueries.FindTests

/-- A file or directory name, or a text made from such names. -/
abbrev Name := List Char

/-- The entries of a directory: none, or a file with its lines, or a directory with its own
entries, and the entries after it. -/
inductive Entries where
  | nil
  | file (name : Name) (lines : List Name) (rest : Entries)
  | dir (name : Name) (sub rest : Entries)
  deriving DecidableEq

namespace Entries

def files : Entries → List (Name × List Name)
  | nil => []
  | file name lines rest => (name, lines) :: rest.files
  | dir _ _ rest => rest.files

def dirs : Entries → List (Name × Entries)
  | nil => []
  | file _ _ rest => rest.dirs
  | dir name sub rest => (name, sub) :: rest.dirs

def names : Entries → List Name
  | nil => []
  | file name _ rest => name :: rest.names
  | dir name _ rest => name :: rest.names

def Distinct : Entries → Prop
  | nil => True
  | file name _ rest => name ∉ rest.names ∧ rest.Distinct
  | dir name sub rest => name ∉ rest.names ∧ sub.Distinct ∧ rest.Distinct

instance decidableDistinct : (es : Entries) → Decidable es.Distinct
  | nil => inferInstanceAs (Decidable True)
  | file _ _ rest =>
    have := decidableDistinct rest
    inferInstanceAs (Decidable (_ ∧ _))
  | dir _ sub rest =>
    have := decidableDistinct sub
    have := decidableDistinct rest
    inferInstanceAs (Decidable (_ ∧ _ ∧ _))

end Entries

/-- The directory that is searched: its path and its entries. -/
structure Folder where
  path : List Name
  entries : Entries
  path_ne : path ≠ [] := by decide
  distinct : entries.Distinct := by decide

/-- The directories below one, each with its path. -/
def walkBelow (root : List Name) : Entries → List (List Name × Entries)
  | .nil => []
  | .file _ _ rest => walkBelow root rest
  | .dir name sub rest =>
    (root ++ [name], sub) :: (walkBelow (root ++ [name]) sub ++ walkBelow root rest)

def walk (directory : Folder) : List (List Name × Entries) :=
  (directory.path, directory.entries) :: walkBelow directory.path directory.entries

def text (path : List Name) : Name := ['/'].intercalate path

/-- `fnmatch.filter(files, p + "*")`, where names and pattern are brought to the normal case of
the platform. -/
def fnmatchFilter (normcase : Char → Char) (files : List (Name × List Name)) (p : Name) :
    List (Name × List Name) :=
  files.filter fun file => p.map normcase <+: file.1.map normcase

def checkUseNtifs (lines : List Name) : Bool := lines.any fun line => "ntifs.h".toList <:+: line

/-- The attributes a test has from the search. -/
structure QlTestAttributes where
  use_ntifs : Bool
  use_cpp : Bool
  deriving DecidableEq

/-- A query file that was found. -/
structure Query where
  root : List Name
  file : Name
  deriving DecidableEq

def ignorePaths : List Name :=
  ["wfp".toList, "QueryTemplate".toList, "TestTemplate".toList, ".vs".toList]

def Skipped (root : List Name) : Prop :=
  (∃ path ∈ root, path ∈ ignorePaths) ∨ "TestTemplate".toList <:+: text root

instance (root : List Name) : Decidable (Skipped root) := inferInstanceAs (Decidable (_ ∨ _))

def useCpp (normcase : Char → Char) (files : List (Name × List Name)) : Bool :=
  let snippets := fnmatchFilter normcase files "driver_snippet.c".toList
  let cpp := snippets.map fun x => decide (".cpp".toList <:+: x.1)
  let hpp := snippets.map fun x => decide (".hpp".toList <:+: x.1)
  (if cpp = [] then hpp else cpp).all id

def queriesOf (normcase : Char → Char) (extension : Name) (root : List Name) (es : Entries) :
    List (Query × QlTestAttributes) :=
  if Skipped root then []
  else
    match fnmatchFilter normcase es.files "driver_snippet.".toList with
    | [] => []
    | snippet :: _ =>
      (es.files.filter fun file => extension <:+ file.1).map fun file =>
        (⟨root, file.1⟩, ⟨checkUseNtifs snippet.2, useCpp normcase es.files⟩)

def findQlTestPaths (normcase : Char → Char) (directory : Folder) (extension : Name) :
    List (Query × QlTestAttributes) :=
  (walk directory).flatMap fun x => queriesOf normcase extension x.1 x.2

structure Counts where
  error : ℕ
  warning : ℕ
  note : ℕ

/-- `ql_test_attributes`, as `parse_attributes` completes it. -/
structure QlTest where
  use_ntifs : Name
  use_cpp : Bool
  template : Name
  path : List Name
  ql_file : List Name
  ql_name : Name
  ql_type : Name
  ql_location : Name
  deriving DecidableEq

/-- The template for a type of driver, below the directory of the templates. -/
def templateOf (attributes : QlTestAttributes) (ql_type : Name) : Name :=
  if attributes.use_cpp then "CppKMDFTestTemplate".toList
  else if ql_type = "general".toList then "WDMTestTemplate".toList
  else if ql_type = "wdm".toList then "WDMTestTemplate".toList
  else if ql_type = "kmdf".toList then "KMDFTestTemplate".toList
  else if ql_type = "apps".toList then "ApplicationForDriversTestTemplate".toList
  else []

def Query.path (query : Query) : List Name := query.root ++ [query.file]

def Query.key (query : Query) : Name := text query.root ++ '\\' :: query.file

/-- What `parse_attributes` makes of one query, if it raises no exception. -/
def parseQuery (override_template : Option Name) (g_template_dir : Name)
    (query : Query × QlTestAttributes) : Option QlTest := do
  let path := query.1.path
  let ql_name ← path.dropLast.getLast?
  let di ← path.idxOf? "drivers".toList
  let ql_type ← path[di + 1]?
  pure {
    use_ntifs := if query.2.use_ntifs then ['1'] else ['0']
    use_cpp := query.2.use_cpp
    template := override_template.getD (g_template_dir ++ templateOf query.2 ql_type)
    path := path.dropLast
    ql_file := path
    ql_name := ql_name
    ql_type := ql_type
    ql_location := text ((path.take (path.idxOf ql_name)).drop (path.idxOf ql_type + 1)) }

/-- The query is not in one of the directories the tests are run in. -/
def Kept (query : Query) : Prop :=
  ¬ ("working".toList <:+: query.key ∨ "TestDB".toList <:+: query.key)

instance (query : Query) : Decidable (Kept query) := inferInstanceAs (Decidable (¬ _))

def parseAttributes (override_template : Option Name) (g_template_dir : Name)
    (queries : List (Query × QlTestAttributes)) : Option (List QlTest) :=
  (queries.filter fun query => Kept query.1).mapM (parseQuery override_template g_template_dir)

/-! ### Which queries are found -/

/-- The names lead down from a directory to another. -/
inductive Leads : Entries → List Name → Entries → Prop
  | here {es} : Leads es [] es
  | into {es name sub p es'} (hsub : (name, sub) ∈ es.dirs) (hp : Leads sub p es') :
      Leads es (name :: p) es'

/-- The query is a file of the folder beside a driver snippet, in no directory to be ignored. -/
structure IsTest (normcase : Char → Char) (directory : Folder) (extension : Name)
    (query : Query) : Prop where
  reached : ∃ p es, query.root = directory.path ++ p ∧ Leads directory.entries p es ∧
    query.file ∈ es.files.map Prod.fst ∧
    fnmatchFilter normcase es.files "driver_snippet.".toList ≠ []
  ends : extension <:+ query.file
  not_skipped : ¬ Skipped query.root

variable {normcase : Char → Char} {directory : Folder} {extension : Name} {query : Query}
  {root r : List Name} {es es' : Entries}

lemma Leads.cases_dirs {p : List Name} (h : Leads es p es') :
    (p = [] ∧ es' = es) ∨
      ∃ name sub q, p = name :: q ∧ (name, sub) ∈ es.dirs ∧ Leads sub q es' := by
  cases h with
  | here => exact Or.inl ⟨rfl, rfl⟩
  | @into _ name sub q _ hsub hq => exact Or.inr ⟨name, sub, q, rfl, hsub, hq⟩

lemma mem_walkBelow : (root, es') ∈ walkBelow r es ↔
    ∃ name sub p, (name, sub) ∈ es.dirs ∧ Leads sub p es' ∧ root = r ++ name :: p := by
  induction es generalizing r with
  | nil => simp [walkBelow, Entries.dirs]
  | file name lines rest ih => simpa [walkBelow, Entries.dirs] using ih
  | dir name sub rest ihsub ihrest =>
    simp only [walkBelow, List.mem_cons, List.mem_append, Prod.mk.injEq, ihsub, ihrest,
      Entries.dirs]
    constructor
    · rintro (⟨rfl, rfl⟩ | ⟨n, s, p, hs, hp, rfl⟩ | ⟨n, s, p, hs, hp, rfl⟩)
      · exact ⟨name, es', [], Or.inl ⟨rfl, rfl⟩, .here, rfl⟩
      · exact ⟨name, sub, n :: p, Or.inl ⟨rfl, rfl⟩, .into hs hp, by simp⟩
      · exact ⟨n, s, p, Or.inr hs, hp, rfl⟩
    · rintro ⟨n, s, p, ⟨rfl, rfl⟩ | hs, hp, rfl⟩
      · obtain ⟨rfl, rfl⟩ | ⟨n', s', q, rfl, hs', hq⟩ := hp.cases_dirs
        · exact Or.inl ⟨rfl, rfl⟩
        · exact Or.inr (Or.inl ⟨n', s', q, hs', hq, by simp⟩)
      · exact Or.inr (Or.inr ⟨n, s, p, hs, hp, rfl⟩)

lemma mem_walk : (root, es) ∈ walk directory ↔
    ∃ p, root = directory.path ++ p ∧ Leads directory.entries p es := by
  rw [walk, List.mem_cons, Prod.mk.injEq, mem_walkBelow]
  constructor
  · rintro (⟨rfl, rfl⟩ | ⟨name, sub, p, hsub, hp, rfl⟩)
    · exact ⟨[], by simp, .here⟩
    · exact ⟨name :: p, rfl, .into hsub hp⟩
  · rintro ⟨p, rfl, hp⟩
    obtain ⟨rfl, rfl⟩ | ⟨name, sub, q, rfl, hsub, hq⟩ := hp.cases_dirs
    · exact Or.inl ⟨by simp, rfl⟩
    · exact Or.inr ⟨name, sub, q, hsub, hq, rfl⟩

lemma mem_queriesOf : query ∈ (queriesOf normcase extension root es).map Prod.fst ↔
    query.root = root ∧ query.file ∈ es.files.map Prod.fst ∧ extension <:+ query.file ∧
      ¬ Skipped root ∧ fnmatchFilter normcase es.files "driver_snippet.".toList ≠ [] := by
  unfold queriesOf
  split_ifs with hskip
  · exact iff_of_false List.not_mem_nil fun h => h.2.2.2.1 hskip
  · split
    · next hnone => exact iff_of_false List.not_mem_nil fun h => h.2.2.2.2 hnone
    · next snippet snippets hsome =>
      simp only [List.map_map, List.mem_map, List.mem_filter, decide_eq_true_eq]
      constructor
      · rintro ⟨file, ⟨hfile, hends⟩, rfl⟩
        exact ⟨rfl, ⟨file, hfile, rfl⟩, hends, hskip, hsome ▸ List.cons_ne_nil _ _⟩
      · obtain ⟨root', name⟩ := query
        rintro ⟨rfl, ⟨file, hfile, rfl⟩, hends, -, -⟩
        exact ⟨file, ⟨hfile, hends⟩, rfl⟩

/-- **The queries that are found are the tests of the folder.** -/
theorem mem_findQlTestPaths :
    query ∈ (findQlTestPaths normcase directory extension).map Prod.fst ↔
      IsTest normcase directory extension query := by
  rw [findQlTestPaths, List.map_flatMap, List.mem_flatMap]
  constructor
  · rintro ⟨⟨root, es⟩, hwalk, hq⟩
    obtain ⟨hroot, hfile, hends, hskip, hsnippet⟩ := mem_queriesOf.mp hq
    obtain ⟨p, hpath, hp⟩ := mem_walk.mp hwalk
    exact ⟨⟨p, es, hroot.trans hpath, hp, hfile, hsnippet⟩, hends, hroot ▸ hskip⟩
  · rintro ⟨⟨p, es, hroot, hp, hfile, hsnippet⟩, hends, hskip⟩
    exact ⟨(query.root, es), mem_walk.mpr ⟨p, hroot, hp⟩,
      mem_queriesOf.mpr ⟨rfl, hfile, hends, hskip, hsnippet⟩⟩

lemma Entries.names_of_files {name : Name} (h : name ∈ es.files.map Prod.fst) :
    name ∈ es.names := by
  induction es with
  | nil => simp [files] at h
  | file n lines rest ih =>
    simp only [files, List.map_cons, List.mem_cons, names] at h ⊢
    exact h.imp_right ih
  | dir n sub rest _ ih =>
    simp only [files, names, List.mem_cons] at h ⊢
    exact Or.inr (ih h)

lemma Entries.names_of_dirs {name : Name} {sub : Entries} (h : (name, sub) ∈ es.dirs) :
    name ∈ es.names := by
  induction es with
  | nil => simp [dirs] at h
  | file n lines rest ih =>
    simp only [dirs, names, List.mem_cons] at h ⊢
    exact Or.inr (ih h)
  | dir n s rest _ ih =>
    simp only [dirs, names, List.mem_cons, Prod.mk.injEq] at h ⊢
    exact h.imp And.left ih

lemma Entries.Distinct.files_nodup (h : es.Distinct) : (es.files.map Prod.fst).Nodup := by
  induction es with
  | nil => simp [files]
  | file name lines rest ih =>
    simp only [files, List.map_cons, List.nodup_cons]
    exact ⟨fun hmem => h.1 (names_of_files hmem), ih h.2⟩
  | dir name sub rest _ ih => exact ih h.2.2

lemma Entries.Distinct.leads (h : es.Distinct) {p : List Name} (hp : Leads es p es') :
    es'.Distinct := by
  have hdirs : ∀ {es sub : Entries} {name : Name}, es.Distinct → (name, sub) ∈ es.dirs →
      sub.Distinct := by
    intro es sub name h hsub
    induction es with
    | nil => simp [dirs] at hsub
    | file n lines rest ih => exact ih h.2 hsub
    | dir n s rest _ ih =>
      simp only [dirs, List.mem_cons, Prod.mk.injEq] at hsub
      obtain ⟨rfl, rfl⟩ | hsub := hsub
      · exact h.2.1
      · exact ih h.2.2 hsub
  induction hp with
  | here => exact h
  | into hsub _ ih => exact ih (hdirs h hsub)

lemma walkBelow_nodup (h : es.Distinct) : ((walkBelow r es).map Prod.fst).Nodup := by
  induction es generalizing r with
  | nil => simp [walkBelow]
  | file name lines rest ih => exact ih h.2
  | dir name sub rest ihsub ihrest =>
    obtain ⟨hname, hsub, hrest⟩ := h
    simp only [walkBelow, List.map_cons, List.map_append]
    refine List.nodup_cons.mpr ⟨fun hmem => ?_, List.Nodup.append (ihsub hsub) (ihrest hrest) ?_⟩
    · rcases List.mem_append.mp hmem with hmem | hmem
      · obtain ⟨⟨root, es'⟩, hx, heq⟩ := List.mem_map.mp hmem
        obtain ⟨n, s, p, -, -, rfl⟩ := mem_walkBelow.mp hx
        simp at heq
      · obtain ⟨⟨root, es'⟩, hx, heq⟩ := List.mem_map.mp hmem
        obtain ⟨n, s, p, hs, -, rfl⟩ := mem_walkBelow.mp hx
        have hn : n = name := by simp at heq; exact heq.1
        exact hname (hn ▸ Entries.names_of_dirs hs)
    · intro x hx hx'
      obtain ⟨⟨root, es'⟩, hy, rfl⟩ := List.mem_map.mp hx
      obtain ⟨⟨root', es''⟩, hy', heq⟩ := List.mem_map.mp hx'
      obtain ⟨n, s, p, -, -, rfl⟩ := mem_walkBelow.mp hy
      obtain ⟨n', s', p', hs', -, rfl⟩ := mem_walkBelow.mp hy'
      have hn : n' = name := by simp at heq; exact heq.1
      exact hname (hn ▸ Entries.names_of_dirs hs')

lemma walk_nodup : ((walk directory).map Prod.fst).Nodup := by
  rw [walk, List.map_cons, List.nodup_cons]
  refine ⟨fun hmem => ?_, walkBelow_nodup directory.distinct⟩
  obtain ⟨⟨root, es'⟩, hx, heq⟩ := List.mem_map.mp hmem
  obtain ⟨n, s, p, -, -, rfl⟩ := mem_walkBelow.mp hx
  simp at heq

/-- No query is found twice, so that the dictionary has an entry for each. -/
lemma findQlTestPaths_nodup :
    ((findQlTestPaths normcase directory extension).map Prod.fst).Nodup := by
  rw [findQlTestPaths, List.map_flatMap, List.nodup_flatMap]
  constructor
  · rintro ⟨root, es⟩ hwalk
    obtain ⟨p, -, hp⟩ := mem_walk.mp hwalk
    have hfiles := (directory.distinct.leads hp).files_nodup
    unfold queriesOf
    split_ifs
    · simp
    · split
      · simp
      · have hinj : ((es.files.filter fun file => extension <:+ file.1).map Prod.fst).Nodup :=
          hfiles.sublist (List.filter_sublist.map _)
        simpa [List.map_map, Function.comp_def] using
          hinj.map (f := fun file => (⟨root, file⟩ : Query)) fun a b hab => (Query.mk.inj hab).2
  · refine (List.pairwise_map.mp walk_nodup).imp fun {x y} hne => ?_
    intro q hq hq'
    exact hne ((mem_queriesOf.mp hq).1.symm.trans (mem_queriesOf.mp hq').1)

/-! ### What the tests are called -/

lemma mapM_eq_some_iff {α β : Type} {f : α → Option β} {xs : List α} {ys : List β} :
    xs.mapM f = some ys ↔ List.Forall₂ (fun x y => f x = some y) xs ys := by
  induction xs generalizing ys with
  | nil => cases ys <;> simp
  | cons x xs ih =>
    cases ys with
    | nil => simp [Option.bind_eq_some_iff]
    | cons y ys => simp [Option.bind_eq_some_iff, ← ih]

lemma exists_mapM_iff {α β : Type} {f : α → Option β} {xs : List α} :
    (∃ ys, xs.mapM f = some ys) ↔ ∀ x ∈ xs, ∃ y, f x = some y := by
  induction xs with
  | nil => simp
  | cons x xs ih =>
    rw [List.forall_mem_cons, ← ih]
    simp only [List.mapM_cons, Option.bind_eq_bind, Option.bind_eq_some_iff, Option.pure_def,
      Option.some.injEq]
    exact ⟨fun ⟨_, y, hy, zs, hzs, _⟩ => ⟨⟨y, hy⟩, zs, hzs⟩,
      fun ⟨⟨y, hy⟩, zs, hzs⟩ => ⟨_, y, hy, zs, hzs, rfl⟩⟩

/-- The name of the directory of the query. -/
def Query.folder (query : Query) : Option Name := query.root.getLast?

variable {override_template : Option Name} {g_template_dir : Name} {ql_test : QlTest}
  {found : Query × QlTestAttributes} {ql_tests : List QlTest}

lemma parseQuery_name (h : parseQuery override_template g_template_dir found = some ql_test) :
    found.1.folder = some ql_test.ql_name := by
  simp only [parseQuery, Query.path, List.dropLast_concat, Option.bind_eq_bind,
    Option.bind_eq_some_iff, Option.pure_def, Option.some.injEq] at h
  obtain ⟨ql_name, hname, di, -, ql_type, -, rfl⟩ := h
  exact hname

lemma parseQuery_ql_file (h : parseQuery override_template g_template_dir found = some ql_test) :
    ql_test.ql_file = found.1.path := by
  simp only [parseQuery, Option.bind_eq_bind, Option.bind_eq_some_iff, Option.pure_def,
    Option.some.injEq] at h
  obtain ⟨ql_name, -, di, -, ql_type, -, rfl⟩ := h
  rfl

lemma parseQuery_isSome (hroot : found.1.root ≠ []) (hfile : found.1.file ≠ "drivers".toList) :
    (∃ ql_test, parseQuery override_template g_template_dir found = some ql_test) ↔
      "drivers".toList ∈ found.1.root := by
  simp only [parseQuery, Query.path, List.dropLast_concat, Option.bind_eq_bind,
    Option.bind_eq_some_iff, Option.pure_def, Option.some.injEq]
  constructor
  · rintro ⟨t, -, -, di, hdi, -⟩
    have hmem : "drivers".toList ∈ found.1.root ++ [found.1.file] := by
      rw [← List.isSome_idxOf?, hdi]
      rfl
    rcases List.mem_append.mp hmem with hmem | hmem
    · exact hmem
    · exact absurd (List.mem_singleton.mp hmem).symm hfile
  · -- the file comes last, so that a directory has something after it
    intro hmem
    obtain ⟨ql_name, hname⟩ : ∃ ql_name, found.1.root.getLast? = some ql_name :=
      ⟨_, List.getLast?_eq_some_getLast hroot⟩
    obtain ⟨di, hdi⟩ := Option.isSome_iff_exists.mp
      (List.isSome_idxOf?.mpr (List.mem_append_left [found.1.file] hmem))
    obtain ⟨hlength, hget, -⟩ := List.idxOf?_eq_some_iff.mp hdi
    have hlt : di + 1 < (found.1.root ++ [found.1.file]).length := by
      simp only [List.length_append, List.length_singleton] at hlength ⊢
      by_contra hge
      obtain rfl : di = found.1.root.length := by omega
      simp at hget
      exact hfile hget
    exact ⟨_, ql_name, hname, di, hdi, _, List.getElem?_eq_getElem hlt, rfl⟩

lemma IsTest.root_ne (h : IsTest normcase directory extension query) : query.root ≠ [] := by
  obtain ⟨p, es, hroot, -, -, -⟩ := h.reached
  rw [hroot]
  simp [directory.path_ne]

/-- The queries of the folder that are tests and are not in a directory the tests are run in. -/
def Tested (normcase : Char → Char) (directory : Folder) (query : Query) : Prop :=
  IsTest normcase directory ".ql".toList query ∧ Kept query

lemma Tested.file_ne (h : Tested normcase directory query) : query.file ≠ "drivers".toList := by
  intro heq
  have hends := h.1.ends
  rw [heq] at hends
  exact absurd hends (by decide)

/-- The tests that are found and parsed, if no exception is raised. -/
def testsFound (normcase : Char → Char) (override_template : Option Name)
    (g_template_dir : Name) (directory : Folder) : Option (List QlTest) :=
  parseAttributes override_template g_template_dir
    (findQlTestPaths normcase directory ".ql".toList)

lemma mem_kept {kept : List (Query × QlTestAttributes)}
    (hkept : kept = (findQlTestPaths normcase directory ".ql".toList).filter fun q => Kept q.1) :
    query ∈ kept.map Prod.fst ↔ Tested normcase directory query := by
  rw [Tested, ← mem_findQlTestPaths, hkept]
  simp only [List.mem_map, List.mem_filter, decide_eq_true_eq]
  constructor
  · rintro ⟨q, ⟨hq, hkeep⟩, rfl⟩
    exact ⟨⟨q, hq, rfl⟩, hkeep⟩
  · rintro ⟨⟨q, hq, rfl⟩, hkeep⟩
    exact ⟨q, ⟨hq, hkeep⟩, rfl⟩

lemma testsFound_isSome : (∃ ql_tests,
    testsFound normcase override_template g_template_dir directory = some ql_tests) ↔
      ∀ query, Tested normcase directory query → "drivers".toList ∈ query.root := by
  unfold testsFound parseAttributes
  rw [exists_mapM_iff]
  have hdrivers : ∀ q : Query × QlTestAttributes, Tested normcase directory q.1 →
      ((∃ t, parseQuery override_template g_template_dir q = some t) ↔
        "drivers".toList ∈ q.1.root) := fun q hq => parseQuery_isSome hq.1.root_ne hq.file_ne
  constructor
  · intro h query hquery
    obtain ⟨q, hq, rfl⟩ := List.mem_map.mp ((mem_kept rfl).mpr hquery)
    exact (hdrivers q hquery).mp (h q hq)
  · intro h q hq
    have hquery := (mem_kept rfl).mp (List.mem_map_of_mem (f := Prod.fst) hq)
    exact (hdrivers q hquery).mpr (h q.1 hquery)

lemma testsFound_names
    (h : testsFound normcase override_template g_template_dir directory = some ql_tests) :
    ∃ queries : List Query, queries.Nodup ∧ (∀ q, q ∈ queries ↔ Tested normcase directory q) ∧
      List.Forall₂ (fun q t => q.folder = some t.ql_name ∧ t.ql_file = q.path)
        queries ql_tests := by
  unfold testsFound parseAttributes at h
  refine ⟨_, findQlTestPaths_nodup.sublist (List.filter_sublist.map _),
    fun q => mem_kept rfl, List.forall₂_map_left_iff.mpr ?_⟩
  exact (mapM_eq_some_iff.mp h).imp fun q t hq => ⟨parseQuery_name hq, parseQuery_ql_file hq⟩

end DriverQueries.FindTests
