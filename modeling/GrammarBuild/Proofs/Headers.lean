import GrammarBuild.Proofs.HeaderTrees

/-
  GrammarBuild/Proofs/Headers.lean
  ================================
  **Headers are tracked** — the fingerprint of a compile step holds the digest of every
  header below the step's include directories and of nothing else, so that it changes with
  each of them (`headers_tracked`), if the texts of the directories stand for themselves
  in a pattern.

  Where they do not, headers are missed (`header_missed`): the directory's text is read as
  part of the pattern.
-/

namespace GrammarBuild

open FileTree

/-! ### Entries of a table -/

namespace Table

variable {α β : Type} [Ord α] [Std.TransOrd α]

/-- The entries after a value was entered: the new one, under the key or one that compares
    equal, and old ones. -/
theorem mem_insert {t : Table α β} {k : α} {v : β} {e : α × β} (h : e ∈ (t.insert k v).entries) :
    e ∈ t.entries ∨ e.2 = v ∧ (e.1 = k ∨ compare k e.1 = .eq ∧ ∃ old ∈ t.entries, old.1 = e.1) := by
  rw [entries_insert] at h
  generalize t.entries = es at h
  induction es with
  | nil =>
    rw [put, List.mem_singleton] at h
    exact .inr ⟨by rw [h], .inl (by rw [h])⟩
  | cons a es ih =>
    rw [put] at h
    split at h
    · rcases List.mem_cons.1 h with rfl | h
      · exact .inr ⟨rfl, .inl rfl⟩
      · exact .inl h
    · rename_i heq
      rcases List.mem_cons.1 h with rfl | h
      · exact .inr ⟨rfl, .inr ⟨heq, a, List.mem_cons_self, rfl⟩⟩
      · exact .inl (List.mem_cons_of_mem a h)
    · rcases List.mem_cons.1 h with rfl | h
      · exact .inl List.mem_cons_self
      · rcases ih h with h | ⟨hv, hk | ⟨hk, old, hold, ho⟩⟩
        · exact .inl (List.mem_cons_of_mem a h)
        · exact .inr ⟨hv, .inl hk⟩
        · exact .inr ⟨hv, .inr ⟨hk, old, List.mem_cons_of_mem a hold, ho⟩⟩

/-- No key is lost, and the new one is there. -/
theorem exists_mem_insert (t : Table α β) (k : α) (v : β) :
    (∃ e ∈ (t.insert k v).entries, compare k e.1 = .eq) ∧
      ∀ old ∈ t.entries, ∃ e ∈ (t.insert k v).entries, e.1 = old.1 := by
  rw [entries_insert]
  induction t.entries with
  | nil => exact ⟨⟨(k, v), List.mem_singleton.2 rfl, Std.ReflCmp.compare_self⟩, by simp⟩
  | cons a es ih =>
    rw [put]
    split
    · exact ⟨⟨(k, v), List.mem_cons_self, Std.ReflCmp.compare_self⟩,
        fun old hold => ⟨old, List.mem_cons_of_mem _ hold, rfl⟩⟩
    · rename_i heq
      refine ⟨⟨(a.1, v), List.mem_cons_self, heq⟩, fun old hold => ?_⟩
      rcases List.mem_cons.1 hold with rfl | hold
      · exact ⟨_, List.mem_cons_self, rfl⟩
      · exact ⟨old, List.mem_cons_of_mem _ hold, rfl⟩
    · obtain ⟨⟨e, he, hk⟩, hkept⟩ := ih
      refine ⟨⟨e, List.mem_cons_of_mem a he, hk⟩, fun old hold => ?_⟩
      rcases List.mem_cons.1 hold with rfl | hold
      · exact ⟨old, List.mem_cons_self, rfl⟩
      · obtain ⟨e', he', heq⟩ := hkept old hold
        exact ⟨e', List.mem_cons_of_mem a he', heq⟩

end Table

/-! ### What is recorded of headers -/

/-- A file below a directory whose name ends in `.h`, found by its names from there. -/
structure HeaderBelow (t : FileTree) (cwd : Location) (dir : Path) (names : List String)
    (bytes : ByteArray) : Prop where
  isDir : t.isDir cwd dir = true
  named : HeaderNames names
  read : t.readFile cwd (dir.children names) = .ok bytes

/-- A table that has one entry for each header below some directories, what is recorded of
    its bytes under a path with its steps, and no other entries. -/
structure RecordsHeaders {β : Type} (record : ByteArray → β) (t : FileTree) (cwd : Location)
    (dirs : List Path) (table : Table Path β) : Prop where
  only : ∀ e ∈ table.entries, ∃ dir ∈ dirs, ∃ names bytes, HeaderNames names ∧
    e.1.SameSteps (dir.children names) ∧ t.readFile cwd e.1 = .ok bytes ∧ e.2 = record bytes
  all : ∀ dir ∈ dirs, ∀ names bytes, HeaderBelow t cwd dir names bytes →
    ∃ e ∈ table.entries, e.1.SameSteps (dir.children names) ∧ e.2 = record bytes

/-- The text of a directory that is there stands for itself. -/
def LiteralDirs (t : FileTree) (cwd : Location) (dirs : List Path) : Prop :=
  ∀ dir ∈ dirs, t.isDir cwd dir = true → dir.Literal

namespace CompileInputs

variable {t : FileTree} {cwd : Location} {dirs : List Path} {headers : Table Path ByteArray}

/-- Every entry is read by its path. -/
def Read (t : FileTree) (cwd : Location) (headers : Table Path ByteArray) : Prop :=
  ∀ e ∈ headers.entries, t.readFile cwd e.1 = .ok e.2

/-- Files that were found are entered with what is read of them. -/
theorem foldlM_insert {found : List Path} (readable : ∀ x ∈ found, ∃ bytes, t.readFile cwd x = .ok bytes)
    (read : Read t cwd headers) :
    ∃ headers', found.foldlM (fun hs x => do return hs.insert x (← t.readToDigest cwd x)) headers =
        (.ok headers' : Except Failure _) ∧ Read t cwd headers' ∧
      (∀ e ∈ headers'.entries, (∃ old ∈ headers.entries, e.1.SameSteps old.1) ∨
        ∃ x ∈ found, e.1.SameSteps x) ∧
      (∀ old ∈ headers.entries, ∃ e ∈ headers'.entries, e.1.SameSteps old.1) ∧
      ∀ x ∈ found, ∃ e ∈ headers'.entries, e.1.SameSteps x := by
  have hrefl (p : Path) : p.SameSteps p := ⟨rfl, rfl⟩
  induction found generalizing headers with
  | nil =>
    exact ⟨headers, rfl, read, fun e he => .inl ⟨e, he, hrefl _⟩, fun e he => ⟨e, he, hrefl _⟩, by simp⟩
  | cons x found ih =>
    obtain ⟨bytes, hbytes⟩ := readable x List.mem_cons_self
    have heq {y : Path} (h : compare x y = .eq) : x.SameSteps y :=
      .of_components (Path.compare_eq_eq_iff.1 h)
    have hread : Read t cwd (headers.insert x bytes) := by
      intro e he
      rcases Table.mem_insert he with he | ⟨hv, hk | ⟨hk, old, hold, ho⟩⟩
      · exact read e he
      · rw [hk, hv]
        exact hbytes
      · have hold' := read old hold
        rw [ho] at hold'
        rw [hv, bytes_eq_of_sameSteps (heq hk) hbytes hold']
        exact hold'
    obtain ⟨hnew, hkept⟩ := Table.exists_mem_insert headers x bytes
    obtain ⟨headers', hrun, hread', honly, hold, hall⟩ :=
      ih (fun y hy => readable y (List.mem_cons_of_mem x hy)) hread
    refine ⟨headers', ?_, hread', fun e he => ?_, fun old ho => ?_, fun y hy => ?_⟩
    · rw [List.foldlM_cons, readToDigest_of_readFile hbytes]
      exact hrun
    · rcases honly e he with ⟨mid, hmid, hsame⟩ | ⟨y, hy, hsame⟩
      · rcases Table.mem_insert hmid with hmid | ⟨-, hk | ⟨hk, -⟩⟩
        · exact .inl ⟨mid, hmid, hsame⟩
        · exact .inr ⟨x, List.mem_cons_self, hk ▸ hsame⟩
        · exact .inr ⟨x, List.mem_cons_self, hsame.trans (heq hk).symm⟩
      · exact .inr ⟨y, List.mem_cons_of_mem x hy, hsame⟩
    · obtain ⟨mid, hmid, hkey⟩ := hkept old ho
      obtain ⟨e, he, hsame⟩ := hold mid hmid
      exact ⟨e, he, hkey ▸ hsame⟩
    · rcases List.mem_cons.1 hy with rfl | hy
      · obtain ⟨mid, hmid, hk⟩ := hnew
        obtain ⟨e, he, hsame⟩ := hold mid hmid
        exact ⟨e, he, hsame.trans (heq hk).symm⟩
      · exact hall y hy

/-- The headers below one more directory. -/
theorem addHeaders_records (tree : t.PlainNames) {dir : Path}
    (literal : t.isDir cwd dir = true → dir.Literal) (read : Read t cwd headers)
    (records : RecordsHeaders id t cwd dirs headers) :
    ∃ headers', addHeaders t cwd headers dir = .ok headers' ∧ Read t cwd headers' ∧
      RecordsHeaders id t cwd (dirs ++ [dir]) headers' := by
  cases hdir : t.isDir cwd dir with
  | false =>
    refine ⟨headers, ?_, read, fun e he => ?_, fun d hd names bytes header => ?_⟩
    · unfold addHeaders
      rw [hdir]
      rfl
    · obtain ⟨d, hd, hrest⟩ := records.only e he
      exact ⟨d, List.mem_append_left _ hd, hrest⟩
    · rcases List.mem_append.1 hd with hd | hd
      · exact records.all d hd names bytes header
      · have hisDir := header.isDir
        rw [List.mem_singleton.1 hd, hdir] at hisDir
        cases hisDir
  | true =>
    obtain ⟨found, hfiles, hsound, hcomplete⟩ := Glob.exists_files_headers tree hdir (literal hdir)
    obtain ⟨headers', hrun, hread, honly, hold, hall⟩ := foldlM_insert
      (fun x hx => (hsound x hx).elim fun _ h => h.elim fun bytes h => ⟨bytes, h.2.2⟩) read
    refine ⟨headers', ?_, hread, fun e he => ?_, fun d hd names bytes header => ?_⟩
    · unfold addHeaders
      rw [hdir, if_pos rfl, hfiles]
      exact hrun
    · rcases honly e he with ⟨old, ho, hsame⟩ | ⟨x, hx, hsame⟩
      · obtain ⟨d, hd, names, -, hnames, hsteps, -, -⟩ := records.only old ho
        exact ⟨d, List.mem_append_left _ hd, names, e.2, hnames, hsame.trans hsteps, hread e he, rfl⟩
      · obtain ⟨names, -, hnames, hsteps, -⟩ := hsound x hx
        exact ⟨dir, by simp, names, e.2, hnames, hsame.trans hsteps, hread e he, rfl⟩
    · have hfound : ∃ e ∈ headers'.entries, e.1.SameSteps (d.children names) := by
        rcases List.mem_append.1 hd with hd | hd
        · obtain ⟨old, ho, hsteps, -⟩ := records.all d hd names bytes header
          obtain ⟨e, he, hsame⟩ := hold old ho
          exact ⟨e, he, hsame.trans hsteps⟩
        · obtain rfl := List.mem_singleton.1 hd
          obtain ⟨x, hx, hsteps⟩ := hcomplete names bytes header.named header.read
          obtain ⟨e, he, hsame⟩ := hall x hx
          exact ⟨e, he, hsame.trans hsteps⟩
      obtain ⟨e, he, hsteps⟩ := hfound
      exact ⟨e, he, hsteps, bytes_eq_of_sameSteps hsteps (hread e he) header.read⟩

/-- The headers below several directories can be read. -/
theorem exists_headers (tree : t.PlainNames) {root : Path} {s : CompileStep}
    (literal : LiteralDirs t cwd (s.includeDirs.map root.join)) :
    ∃ headers, s.includeDirs.foldlM (fun hs d => addHeaders t cwd hs (root.join d)) Table.empty =
        .ok headers ∧ RecordsHeaders id t cwd (s.includeDirs.map root.join) headers := by
  have hgo (ds : List Path) (seen : List Path) (hs : Table Path ByteArray) (read : Read t cwd hs)
      (records : RecordsHeaders id t cwd seen hs) (lit : LiteralDirs t cwd (ds.map root.join)) :
      ∃ hs', ds.foldlM (fun hs d => addHeaders t cwd hs (root.join d)) hs = .ok hs' ∧
        RecordsHeaders id t cwd (seen ++ ds.map root.join) hs' := by
    induction ds generalizing seen hs with
    | nil => exact ⟨hs, rfl, by simpa using records⟩
    | cons d ds ih =>
      obtain ⟨hs₁, hrun₁, hread₁, hrecords₁⟩ := addHeaders_records tree
        (lit (root.join d) (by simp)) read records
      obtain ⟨hs₂, hrun₂, hrecords₂⟩ := ih (seen ++ [root.join d]) hs₁ hread₁ hrecords₁
        fun dir hdir => lit dir (List.mem_cons_of_mem _ hdir)
      refine ⟨hs₂, ?_, by simpa using hrecords₂⟩
      rw [List.foldlM_cons, hrun₁]
      exact hrun₂
  exact hgo s.includeDirs [] Table.empty (fun e he => (List.not_mem_nil he).elim)
    ⟨fun e he => (List.not_mem_nil he).elim, fun d hd => (List.not_mem_nil hd).elim⟩ literal

/-- What a compile step reads can be read if its source can, and the headers are those
    below its directories. -/
theorem ofStep_eq (tree : t.PlainNames) {root : Path} {s : CompileStep}
    (literal : LiteralDirs t cwd (s.includeDirs.map root.join)) :
    ∃ headers, ofStep t cwd root s = (t.readToDigest cwd (root.join s.source)).map (⟨·, headers⟩) ∧
      RecordsHeaders id t cwd (s.includeDirs.map root.join) headers := by
  obtain ⟨headers, hrun, hrecords⟩ := exists_headers tree literal
  refine ⟨headers, ?_, hrecords⟩
  unfold ofStep
  rw [hrun]
  cases t.readToDigest cwd (root.join s.source) with
  | error e => rfl
  | ok bytes => rfl

end CompileInputs

/-! ### Fingerprints -/

theorem RecordsHeaders.mapValues {t : FileTree} {cwd : Location} {dirs : List Path}
    {headers : Table Path ByteArray} (h : RecordsHeaders id t cwd dirs headers) :
    RecordsHeaders digestOf t cwd dirs (headers.mapValues digestOf) where
  only e he := by
    obtain ⟨old, hold, rfl⟩ := List.mem_map.1 he
    obtain ⟨dir, hdir, names, bytes, hnames, hsteps, hread, hbytes⟩ := h.only old hold
    exact ⟨dir, hdir, names, bytes, hnames, hsteps, hread, congrArg digestOf hbytes⟩
  all dir hdir names bytes header := by
    obtain ⟨e, he, hsteps, hbytes⟩ := h.all dir hdir names bytes header
    exact ⟨_, List.mem_map.2 ⟨e, he, rfl⟩, hsteps, congrArg digestOf hbytes⟩

/-- All that can be read is among `S`. -/
def FileTree.ReadsWithin (t : FileTree) (cwd : Location) (S : Set (List UInt8)) : Prop :=
  ∀ p bytes, t.readFile cwd p = .ok bytes → bytes.toList ∈ S

theorem FileTree.ReadsWithin.of_toList {t : FileTree} {cwd : Location} {S : Set (List UInt8)}
    (within : ∀ e ∈ t.toList, ∀ bytes x, e.2 = .file bytes x → bytes.toList ∈ S) : t.ReadsWithin cwd S := by
  intro p bytes h
  obtain ⟨-, x, hx⟩ := (readFile_iff t cwd p bytes).1 h
  have hne : p.locate cwd ≠ [] := by
    intro hroot
    rw [hroot] at hx
    cases hx
  exact within _ (mem_toList hne hx) bytes x rfl

/-- A header that one of two agreeing tables records is one in the other's files. -/
theorem HeaderBelow.of_agrees {t u : FileTree} {cwd : Location} {dirs : List Path}
    {f g : Table Path String} {S : Set (List UInt8)} (hS : NoCollision S) (ht : t.ReadsWithin cwd S)
    (hu : u.ReadsWithin cwd S) (hf : RecordsHeaders digestOf t cwd dirs f)
    (hg : RecordsHeaders digestOf u cwd dirs g) (same : f.content = g.content) {dir : Path}
    (hdir : dir ∈ dirs) {names : List String} {bytes : ByteArray}
    (header : HeaderBelow t cwd dir names bytes) :
    HeaderBelow u cwd dir names bytes := by
  obtain ⟨e, he, hsteps, hdigest⟩ := hf.all dir hdir names bytes header
  have hcontent : (e.1.components, e.2) ∈ g.content := same ▸ List.mem_map.2 ⟨e, he, rfl⟩
  obtain ⟨e', he', hentry⟩ := List.mem_map.1 hcontent
  obtain ⟨hkey, hvalue⟩ := Prod.mk.injEq .. ▸ hentry
  obtain ⟨-, -, -, bytes', -, -, hread', hdigest'⟩ := hg.only e' he'
  have hsteps' : e'.1.SameSteps (dir.children names) := (Path.SameSteps.of_components hkey).trans hsteps
  obtain rfl : bytes = bytes' := digestOf_inj hS (ht _ _ header.read) (hu _ _ hread')
    (hdigest.symm.trans (hvalue.symm.trans hdigest'))
  obtain ⟨hcheck, -, -, -⟩ := (pathExists_iff t cwd _).1 (pathExists_of_readFile header.read)
  obtain ⟨init, last, hlast⟩ := (List.eq_nil_or_concat names).resolve_left header.named.ne_nil
  rw [List.concat_eq_append] at hlast
  have hplain : PlainName last := header.named.plain last (by simp [hlast])
  have hdot : (trail (dir.children names)).getLast? ≠ some "." := by
    rw [hlast, Path.children_eq_foldl, List.foldl_append, List.foldl_cons, List.foldl_nil]
    exact Glob.getLast?_trail_child hplain
  have hread : u.readFile cwd (dir.children names) = .ok bytes :=
    readFile_of_sameSteps hsteps' hcheck hdot hread'
  refine ⟨?_, header.named, hread⟩
  obtain ⟨hcheckDir, -, -⟩ := (isDir_iff t cwd dir).1 header.isDir
  obtain ⟨hwalk, hdirAt, -⟩ := Glob.walk_of_pathExists_children header.named.plain header.named.ne_nil
    (pathExists_of_readFile hread)
  exact (isDir_iff u cwd dir).2 ⟨hcheckDir, hwalk, hdirAt⟩

/-- The fingerprint of a compile step whose source is there holds the digest of each header
    below the step's include directories and of no other file, if the texts of the
    directories stand for themselves in a pattern.  So two fingerprints of the step agree
    only if all these headers are the same. -/
theorem headers_tracked {env : Environment} {h : Host} {root : Path} {s : CompileStep}
    (compiler : String) (tree : h.files.PlainNames)
    (literal : LiteralDirs h.files env.cwd (s.includeDirs.map root.join))
    (source : h.files.isFile env.cwd (root.join s.source) = true) :
    ∃ f, (CompileFingerprint.ofStep root s compiler).runOn env h = (.ok f, h) ∧
      RecordsHeaders digestOf h.files env.cwd (s.includeDirs.map root.join) f.headerHashes ∧
      ∀ (h' : Host) (g : CompileFingerprint) (S : Set (List UInt8)), h'.files.PlainNames →
        LiteralDirs h'.files env.cwd (s.includeDirs.map root.join) →
        ((CompileFingerprint.ofStep root s compiler).runOn env h').1 = .ok g →
        NoCollision S → h.files.ReadsWithin env.cwd S → h'.files.ReadsWithin env.cwd S →
        f.agrees g = true → ∀ dir ∈ s.includeDirs.map root.join, ∀ names bytes,
          HeaderBelow h.files env.cwd dir names bytes ↔ HeaderBelow h'.files env.cwd dir names bytes := by
  obtain ⟨bytes, hbytes⟩ := exists_readFile_of_isFile source
  obtain ⟨headers, hi, hrecords⟩ := CompileInputs.ofStep_eq tree literal
  rw [readToDigest_of_readFile hbytes] at hi
  refine ⟨CompileInputs.fingerprint ⟨bytes, headers⟩ s compiler, ?_, hrecords.mapValues, ?_⟩
  · rw [CompileFingerprint.runOn_ofStep, hi]
    rfl
  · intro h' g S tree' literal' hg hS hread hread' agree dir hdir names bytes'
    obtain ⟨headers', hi', hrecords'⟩ := CompileInputs.ofStep_eq tree' literal'
    rw [CompileFingerprint.runOn_ofStep, hi'] at hg
    have hsame : (headers.mapValues digestOf).content = g.headerHashes.content := by
      unfold CompileFingerprint.agrees at agree
      exact (Table.agrees_iff_content _ _).1 (Bool.and_eq_true_iff.1 agree).2
    cases hsource : h'.files.readToDigest env.cwd (root.join s.source) with
    | error e =>
      rw [hsource] at hg
      cases hg
    | ok source' =>
      rw [hsource] at hg
      cases hg
      exact ⟨fun header => header.of_agrees hS hread hread' hrecords.mapValues hrecords'.mapValues hsame hdir,
        fun header => header.of_agrees hS hread' hread hrecords'.mapValues hrecords.mapValues hsame.symm hdir⟩

/-! ### Directories with a header -/

namespace Sample

/-- The project with a header in a directory. -/
def withHeader (dir : String) : FileTree :=
  [(["p"], .dir), (["p", "a.c"], .file "int x;".toUTF8 false), (["p", dir], .dir),
    (["p", dir, "x.h"], .file "int x;".toUTF8 false)].foldl (fun t e => t.set e.1 e.2) ∅

/-- The step of the project's source with a directory for headers. -/
def including (dir : String) : CompileStep where
  target := "a"
  source := ⟨"a.c"⟩
  output := ⟨"/p/out/a.o"⟩
  includeDirs := [⟨dir⟩]
  command := ⟨⟨"/bin/gcc"⟩, ["-c", "-I" ++ dir, "a.c", "-o", "/p/out/a.o"]⟩

def withAnother : FileTree := (withHeader "inc").set ["p", "inc", "y.h"] (.file "int x;".toUTF8 false)

theorem headerBelow {t : FileTree} {cwd : Location} {dir : Path} {name : String}
    (isDir : t.isDir cwd dir = true) (plain : PlainName name) (ending : ".h".toList <:+ name.toList)
    (read : t.readFile cwd (dir.children [name]) = .ok "int x;".toUTF8) :
    HeaderBelow t cwd dir [name] "int x;".toUTF8 :=
  ⟨isDir, ⟨fun _ hn => List.mem_singleton.1 hn ▸ plain, name, rfl, ending⟩, read⟩

/-- All files of a project have the same bytes. -/
theorem readsWithin {t : FileTree}
    (same : (t.toList.all fun e => match e.2 with
      | .dir => true
      | .file bytes _ => decide (bytes = "int x;".toUTF8)) = true) :
    t.ReadsWithin [] {"int x;".toUTF8.toList} := by
  refine .of_toList fun e he bytes x hnode => ?_
  have hbytes := List.all_eq_true.1 same e he
  rw [hnode] at hbytes
  exact congrArg ByteArray.toList (of_decide_eq_true hbytes)

theorem literalDirs_inc (t : FileTree) :
    LiteralDirs t [] ((including "inc").includeDirs.map (Path.join ⟨"/p"⟩)) := by
  intro dir hdir _
  obtain rfl := List.mem_singleton.1 hdir
  have hjoin : (⟨"/p"⟩ : Path).join ⟨"inc"⟩ = ⟨"/p/inc"⟩ := by decide
  rw [hjoin]
  exact literal_inc

/-- The pattern that `a[b]` is read as. -/
def bracketed : Pattern := [.char 'a', .oneOf [.one 'b']]

/-- No name in the project matches it. -/
theorem unmatched : ∀ name ∈ (withHeader "a[b]").names ["p"],
    PlainName name ∧ bracketed.matchesName name = false := by
  intro name h
  have hnames : name = "a[b]" ∨ name = "a.c" := by
    obtain ⟨n, hn⟩ := mem_toList_of_mem_names h
    have hplace := List.mem_map_of_mem (f := Prod.fst) hn
    have hlist : (withHeader "a[b]").toList.map Prod.fst =
        [["p"], ["p", "a[b]"], ["p", "a[b]", "x.h"], ["p", "a.c"]] := rfl
    simpa [hlist] using hplace
  have hmatch (s : String) (hs : s = "a[b]" ∨ s = "a.c") : bracketed.matchesName s = false := by
    rcases hs with rfl | rfl <;>
      simp [bracketed, Pattern.matchesName, Pattern.compareChars, GlobToken.isText, GlobToken.admits,
        CharSpec.admits]
  refine ⟨?_, hmatch name hnames⟩
  rcases hnames with rfl | rfl <;> decide

/-- Nothing is found below a directory whose pattern leads nowhere. -/
theorem files_eq_nil {t : FileTree} {cwd : Location} {base : Path} {tokens : Pattern} (s : String)
    (parts : List Pattern) (text : (base.child "**/*.h").text = s)
    (read : Pattern.read s.toList = .ok tokens)
    (readParts : (Glob.partsOf (Glob.restOf s.toList)).mapM Pattern.read = .ok parts)
    (notEmpty : (Glob.restOf s.toList).isEmpty = false) (last : s.toList.getLast? ≠ some '/')
    (none : ∀ fuel, Glob.below t cwd (fuel + 4) parts
      (Glob.found t cwd (Glob.startOfPattern s.toList)) = []) :
    Glob.files t cwd base CompileFingerprint.headerPatterns = .ok [] := by
  have hfuel : 4 ≤ 4 * (parts.length + 1) * (t.toList.length + 2) := by
    rw [Nat.mul_assoc]
    exact Nat.le_mul_of_pos_right 4 (Nat.mul_pos (Nat.succ_pos _) (Nat.succ_pos _))
  have hnone := none (4 * (parts.length + 1) * (t.toList.length + 2) - 4)
  rw [Nat.sub_add_cancel hfuel] at hnone
  unfold Glob.files CompileFingerprint.headerPatterns
  rw [List.mapM_cons, text, Glob.paths_eq read readParts notEmpty last, hnone]
  simp [Failure.lift, Failure.within, Except.mapError, bind, Except.bind, pure, Except.pure,
    Glob.dropRepeated]

theorem files_bracketed :
    Glob.files (withHeader "a[b]") [] ⟨"/p/a[b]"⟩ CompileFingerprint.headerPatterns = .ok [] := by
  refine files_eq_nil "/p/a[b]/**/*.h" [Pattern.ofChars ['p'], bracketed, [.anyDirs], Glob.headerName]
    (by decide) rfl rfl rfl (by decide) fun fuel => ?_
  have hstart : Glob.startOfPattern "/p/a[b]/**/*.h".toList = ⟨"/"⟩ := rfl
  rw [hstart, Glob.below_literal (by simp) (fuel + 2) rfl rfl]
  exact Glob.below_eq_nil rfl rfl rfl unmatched _

theorem files_gap :
    Glob.files (withHeader "inc") ["p"] ⟨"././/inc"⟩ CompileFingerprint.headerPatterns = .ok [] := by
  refine files_eq_nil "././/inc/**/*.h"
    [Pattern.ofChars ['.'], Pattern.ofChars ['.'], Pattern.ofChars [], Pattern.ofChars ['i', 'n', 'c'],
      [.anyDirs], Glob.headerName] (by decide) rfl rfl rfl (by decide) fun fuel => ?_
  have hstart : Glob.startOfPattern "././/inc/**/*.h".toList = ⟨"."⟩ := rfl
  have hstay : Glob.next ⟨"."⟩ (String.ofList ['.']) = ⟨"."⟩ := rfl
  rw [hstart, Glob.below_literal (by simp) (fuel + 2) rfl rfl, hstay,
    Glob.below_literal (by simp) fuel rfl rfl, hstay]
  exact Glob.below_missing (by decide) (by decide) rfl fuel

/-- Nothing is recorded of headers that are not found. -/
theorem ofStep_eq_empty {t : FileTree} {root : Path} {dir : String} (cwd : Location)
    (read : t.readFile cwd (root.join ⟨"a.c"⟩) = .ok "int x;".toUTF8)
    (isDir : t.isDir cwd (root.join ⟨dir⟩) = true)
    (none : Glob.files t cwd (root.join ⟨dir⟩) CompileFingerprint.headerPatterns = .ok []) :
    ∃ f, (CompileFingerprint.ofStep root (including dir) "gcc").runOn { (default : Environment) with cwd := cwd }
        { files := t } = (.ok f, { files := t }) ∧ f.headerHashes = Table.empty := by
  have hinputs : CompileInputs.ofStep t cwd root (including dir) = .ok ⟨"int x;".toUTF8, Table.empty⟩ := by
    have hsource : (including dir).source = ⟨"a.c"⟩ := rfl
    have hdirs : (including dir).includeDirs = [⟨dir⟩] := rfl
    unfold CompileInputs.ofStep
    rw [hsource, hdirs, readToDigest_of_readFile read]
    simp only [List.foldlM_cons, List.foldlM_nil, CompileInputs.addHeaders, isDir, if_true, none, bind,
      Except.bind, pure, Except.pure]
  refine ⟨CompileInputs.fingerprint ⟨"int x;".toUTF8, Table.empty⟩ (including dir) "gcc", ?_, rfl⟩
  rw [CompileFingerprint.runOn_ofStep]
  show ((CompileInputs.ofStep t cwd root (including dir)).map _, _) = _
  rw [hinputs]
  rfl

end Sample

/-- The header is recorded, and one more header changes the fingerprint. -/
theorem header_added :
    ∃ f g, (CompileFingerprint.ofStep ⟨"/p"⟩ (Sample.including "inc") "gcc").runOn default
        { files := Sample.withHeader "inc" } = (.ok f, { files := Sample.withHeader "inc" }) ∧
      (CompileFingerprint.ofStep ⟨"/p"⟩ (Sample.including "inc") "gcc").runOn default
        { files := Sample.withAnother } = (.ok g, { files := Sample.withAnother }) ∧
      (∃ e ∈ f.headerHashes.entries, e.1.SameSteps ⟨"/p/inc/x.h"⟩ ∧ e.2 = digestOf "int x;".toUTF8) ∧
      f.agrees g = false := by
  have htree : (Sample.withHeader "inc").PlainNames := .of_toList (by decide)
  have htree' : Sample.withAnother.PlainNames := .of_toList (by decide)
  have hdir : (⟨"/p/inc"⟩ : Path) ∈ (Sample.including "inc").includeDirs.map (Path.join ⟨"/p"⟩) := by decide
  obtain ⟨f, hf, hrecords, hchange⟩ := @headers_tracked default
    { files := Sample.withHeader "inc" } _ _ "gcc" htree (Sample.literalDirs_inc _) rfl
  obtain ⟨g, hg, -, -⟩ := @headers_tracked default
    { files := Sample.withAnother } _ _ "gcc" htree' (Sample.literalDirs_inc _) rfl
  refine ⟨f, g, hf, hg, ?_, ?_⟩
  · exact hrecords.all _ hdir ["x.h"] _ (Sample.headerBelow rfl (by decide) (by decide) rfl)
  · cases hagree : f.agrees g with
    | false => rfl
    | true =>
      have hsame := hchange { files := Sample.withAnother } g _ htree' (Sample.literalDirs_inc _)
        (congrArg Prod.fst hg) (Set.injOn_singleton _ _) (Sample.readsWithin rfl)
        (Sample.readsWithin rfl) hagree _ hdir ["y.h"] "int x;".toUTF8
      have hread := (hsame.2 (Sample.headerBelow rfl (by decide) (by decide) rfl)).read
      cases hread

/-- In the directory `a[b]` there is a header, and none is recorded: its text is read as the
    pattern of `ab`.  None is recorded either in `inc` where it is written `././/inc`. -/
theorem header_missed :
    (HeaderBelow (Sample.withHeader "a[b]") [] ⟨"/p/a[b]"⟩ ["x.h"] "int x;".toUTF8 ∧
      ∃ f, (CompileFingerprint.ofStep ⟨"/p"⟩ (Sample.including "a[b]") "gcc").runOn default
          { files := Sample.withHeader "a[b]" } = (.ok f, { files := Sample.withHeader "a[b]" }) ∧
        f.headerHashes = Table.empty) ∧
    HeaderBelow (Sample.withHeader "inc") ["p"] ⟨"././/inc"⟩ ["x.h"] "int x;".toUTF8 ∧
      ∃ f, (CompileFingerprint.ofStep ⟨"."⟩ (Sample.including ".//inc") "gcc").runOn
          { (default : Environment) with cwd := ["p"] } { files := Sample.withHeader "inc" } =
            (.ok f, { files := Sample.withHeader "inc" }) ∧
        f.headerHashes = Table.empty := by
  have hbracketed : (⟨"/p"⟩ : Path).join ⟨"a[b]"⟩ = ⟨"/p/a[b]"⟩ := by decide
  have hgap : (⟨"."⟩ : Path).join ⟨".//inc"⟩ = ⟨"././/inc"⟩ := by decide
  refine ⟨⟨Sample.headerBelow rfl (by decide) (by decide) rfl, ?_⟩,
    Sample.headerBelow rfl (by decide) (by decide) rfl, ?_⟩
  · exact Sample.ofStep_eq_empty [] rfl (hbracketed ▸ rfl) (hbracketed ▸ Sample.files_bracketed)
  · exact Sample.ofStep_eq_empty ["p"] rfl (hgap ▸ rfl) (hgap ▸ Sample.files_gap)

end GrammarBuild
