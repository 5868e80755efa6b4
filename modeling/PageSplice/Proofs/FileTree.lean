-- SUMMARY: Operations on file trees: the places that paths mean, what each operation changes, and what stays.
import PageSplice.FileTree
import PageSplice.Proofs.Path.Climbing

/-!
# Operations on file trees

There are no links, so the place that a path means can be told from the path:
it is what the path collapses to. The tree decides only whether the place can
be come to, through directories all the way. Directories are never removed, so
what could be come to before an operation can be come to after it. An operation
changes one place at most, apart from directories that it makes where nothing
was.
-/

namespace PageSplice

-- ---------------------------------------------------------------------------
-- Joined texts
-- ---------------------------------------------------------------------------

theorem Text.joinWith_cons_cons (separator first second : Text) (rest : List Text) :
    Text.joinWith separator (first :: second :: rest) =
      first ++ separator ++ Text.joinWith separator (second :: rest) := by
  simp [Text.joinWith, List.intercalate]

namespace FileTree

-- ---------------------------------------------------------------------------
-- Places
-- ---------------------------------------------------------------------------

/-- The place that a path means, seen from the directory `cwd`. -/
def placeOf (cwd p : Path) : List Text := (cwd.join p).collapse.segments

/-- Whether a place can be come to: it and all places above it are directories. -/
def IsOpen (t : FileTree) (place : List Text) : Prop :=
  ∀ above, above <+: place → t.node? above = some .directory

variable {t t' t₁ : FileTree} {cwd p : Path} {place place' : List Text}

theorem isOpen_nil (t : FileTree) : t.IsOpen [] := by
  intro above habove
  rw [List.prefix_nil.1 habove]
  rfl

theorem isOpen_append_singleton {segment : Text} :
    t.IsOpen (place ++ [segment]) ↔
      t.IsOpen place ∧ t.node? (place ++ [segment]) = some .directory := by
  constructor
  · exact fun h => ⟨fun above habove => h above (habove.trans (List.prefix_append _ _)),
      h _ (List.prefix_refl _)⟩
  · rintro ⟨hopen, hnode⟩ above habove
    rcases List.prefix_concat_iff.1 habove with rfl | habove
    · exact hnode
    · exact hopen above habove

theorem IsOpen.dropLast (h : t.IsOpen place) : t.IsOpen place.dropLast :=
  fun above habove => h above (habove.trans (List.dropLast_prefix place))

theorem enter_eq_ok {segment : Text} (h : t.enter place segment = .ok place')
    (hopen : t.IsOpen place) :
    t.IsOpen place' ∧ place'.reverse = Path.collapseStep place.reverse segment := by
  unfold enter at h
  unfold Path.collapseStep
  split at h
  · rename_i hup
    cases h
    exact ⟨hopen.dropLast, by rw [if_pos hup, List.tail_reverse]⟩
  · rename_i hup
    split at h
    · cases h
    · split at h
      · rename_i hnode
        cases h
        exact ⟨isOpen_append_singleton.2 ⟨hopen, hnode⟩, by rw [if_neg hup, List.reverse_concat]⟩
      · cases h
      · cases h

theorem foldlM_enter_eq_ok {segments : List Text} (h : segments.foldlM t.enter place = .ok place')
    (hopen : t.IsOpen place) :
    t.IsOpen place' ∧ place'.reverse = segments.foldl Path.collapseStep place.reverse := by
  induction segments generalizing place with
  | nil =>
    cases h
    exact ⟨hopen, rfl⟩
  | cons segment rest ih =>
    rw [List.foldlM_cons] at h
    cases hfirst : t.enter place segment with
    | error reason =>
      rw [hfirst] at h
      cases h
    | ok next =>
      rw [hfirst] at h
      obtain ⟨hnext, hstep⟩ := enter_eq_ok hfirst hopen
      rw [List.foldl_cons, ← hstep]
      exact ih h hnext

/-- A place that is found is the one that the path means. What lies above it can be come to, and it
can be come to itself where the path ends by going up. -/
theorem locate_eq_ok (h : t.locate cwd p = .ok place) :
    place = placeOf cwd p ∧ t.IsOpen place.dropLast ∧
      ((cwd.join p).segments.getLast? = some ['.', '.'] → t.IsOpen place) := by
  simp only [locate, bind, Except.bind, pure, Except.pure, throw, throwThe,
    MonadExceptOf.throw] at h
  split at h
  · cases h
  · split at h
    · cases h
    · rename_i above habove
      obtain ⟨hopen, hreverse⟩ := foldlM_enter_eq_ok habove (isOpen_nil t)
      rw [placeOf, Path.collapse]
      split at h
      · rename_i hlast
        cases h
        rw [List.getLast?_eq_none_iff.1 hlast] at hreverse ⊢
        rw [List.reverse_eq_nil_iff.1 hreverse]
        refine ⟨rfl, isOpen_nil t, ?_⟩
        rintro ⟨⟩
      · rename_i segment hlast
        obtain ⟨front, hsegments⟩ := List.getLast?_eq_some_iff.1 hlast
        have hfold : (cwd.join p).segments.foldl Path.collapseStep [] =
            Path.collapseStep above.reverse segment := by
          rw [hreverse, hsegments, List.foldl_append, List.dropLast_concat]
          rfl
        rw [hfold, Path.collapseStep, hlast]
        split at h
        · rename_i hup
          cases h
          rw [if_pos hup, List.tail_reverse, List.reverse_reverse]
          exact ⟨rfl, hopen.dropLast.dropLast, fun _ => hopen.dropLast⟩
        · rename_i hup
          split at h
          · cases h
          · cases h
            rw [if_neg hup, List.reverse_cons, List.reverse_reverse, List.dropLast_concat]
            exact ⟨rfl, hopen, fun hlast => absurd (Option.some.inj hlast) hup⟩

-- ---------------------------------------------------------------------------
-- Trees that grow
-- ---------------------------------------------------------------------------

def KeepsDirectories (t t' : FileTree) : Prop :=
  ∀ place, t.node? place = some .directory → t'.node? place = some .directory

/-- Whether a tree is the other one with directories in places where nothing was. -/
def OnlyMakesDirectories (t t' : FileTree) : Prop :=
  ∀ place, t'.node? place = t.node? place ∨
    t.node? place = none ∧ t'.node? place = some .directory

theorem OnlyMakesDirectories.refl (t : FileTree) : OnlyMakesDirectories t t := fun _ => .inl rfl

theorem OnlyMakesDirectories.trans (h : OnlyMakesDirectories t t₁)
    (h' : OnlyMakesDirectories t₁ t') : OnlyMakesDirectories t t' := by
  intro place
  rcases h place with hsame | ⟨hnone, hmade⟩
  · rcases h' place with hsame' | ⟨hnone', hmade'⟩
    · exact .inl (hsame'.trans hsame)
    · exact .inr ⟨hsame ▸ hnone', hmade'⟩
  · rcases h' place with hsame' | ⟨hnone', -⟩
    · exact .inr ⟨hnone, hsame'.trans hmade⟩
    · cases hnone'.symm.trans hmade

theorem OnlyMakesDirectories.keepsDirectories (h : OnlyMakesDirectories t t') :
    KeepsDirectories t t' := by
  intro place hplace
  rcases h place with hsame | ⟨-, hmade⟩
  · exact hsame.trans hplace
  · exact hmade

theorem OnlyMakesDirectories.file_iff (h : OnlyMakesDirectories t t') {content : Bytes} :
    t'.node? place = some (.file content) ↔ t.node? place = some (.file content) := by
  rcases h place with hsame | ⟨hnone, hmade⟩
  · rw [hsame]
  · rw [hnone, hmade]
    exact ⟨nofun, nofun⟩

theorem IsOpen.mono (h : t.IsOpen place) (hkeeps : KeepsDirectories t t') : t'.IsOpen place :=
  fun above habove => hkeeps above (h above habove)

theorem enter_mono (hkeeps : KeepsDirectories t t') {segment : Text}
    (h : t.enter place segment = .ok place') : t'.enter place segment = .ok place' := by
  unfold enter at h ⊢
  split at h
  · rename_i hup
    rw [if_pos hup]
    exact h
  · rename_i hup
    split at h
    · cases h
    · rename_i hlength
      split at h
      · rename_i hnode
        rw [if_neg hup, if_neg hlength, hkeeps _ hnode]
        exact h
      · cases h
      · cases h

theorem foldlM_enter_mono (hkeeps : KeepsDirectories t t') {segments : List Text}
    (h : segments.foldlM t.enter place = .ok place') :
    segments.foldlM t'.enter place = .ok place' := by
  induction segments generalizing place with
  | nil => exact h
  | cons segment rest ih =>
    rw [List.foldlM_cons] at h ⊢
    cases hfirst : t.enter place segment with
    | error reason =>
      rw [hfirst] at h
      cases h
    | ok next =>
      rw [hfirst] at h
      rw [enter_mono hkeeps hfirst]
      exact ih h

/-- What could be found can still be found. -/
theorem locate_mono (hkeeps : KeepsDirectories t t') (h : t.locate cwd p = .ok place) :
    t'.locate cwd p = .ok place := by
  simp only [locate, bind, Except.bind, pure, Except.pure, throw, throwThe,
    MonadExceptOf.throw] at h ⊢
  split at h
  · cases h
  · rename_i hlength
    split at h
    · cases h
    · rename_i above habove
      rw [if_neg hlength, foldlM_enter_mono hkeeps habove]
      exact h

-- ---------------------------------------------------------------------------
-- Reading and writing
-- ---------------------------------------------------------------------------

theorem naming_eq_ok {α : Type} {result : Except FileError.Reason α} {a : α} :
    naming p result = .ok a ↔ result = .ok a := by
  cases result with
  | ok b =>
    constructor <;>
    · rintro ⟨⟩
      rfl
  | error reason => constructor <;> rintro ⟨⟩

/-- A file can be read where its place is found and the file is there. -/
theorem read_eq_ok {content : Bytes} :
    t.read cwd p = .ok content ↔
      ∃ place, t.locate cwd p = .ok place ∧ t.node? place = some (.file content) := by
  rw [read, naming_eq_ok]
  cases hlocate : t.locate cwd p with
  | error reason => simp [bind, Except.bind]
  | ok place =>
    simp only [bind, Except.bind, Except.ok.injEq, exists_eq_left']
    cases t.node? place with
    | none => simp
    | some node => cases node <;> simp

/-- A file is written where its place is found and is no directory; then nothing but the place has
changed. -/
theorem write_eq_ok {content : Bytes} :
    t.write cwd p content = .ok t' ↔
      ∃ place, t.locate cwd p = .ok place ∧ t.node? place ≠ some .directory ∧
        t' = t.put place (.file content) := by
  rw [write, naming_eq_ok]
  cases hlocate : t.locate cwd p with
  | error reason => simp [bind, Except.bind]
  | ok place =>
    simp only [bind, Except.bind, Except.ok.injEq, exists_eq_left']
    cases t.node? place with
    | none => simp [eq_comm]
    | some node => cases node <;> simp [eq_comm]

theorem ne_nil_of_node? (h : t.node? place ≠ some .directory) : place ≠ [] := by
  rintro rfl
  exact h rfl

theorem node?_ne_of_none (h : t.node? place = none) : t.node? place ≠ some .directory := by
  rw [h]
  exact nofun

/-- A file that is put where no directory is leaves all directories. -/
theorem keepsDirectories_put (h : t.node? place ≠ some .directory) (content : Bytes) :
    KeepsDirectories t (t.put place (.file content)) := by
  intro q hq
  have hne : q ≠ place := fun heq => h (heq ▸ hq)
  rw [node?_put (ne_nil_of_node? h), if_neg hne]
  exact hq

/-- What is written is read again. -/
theorem read_of_write {content : Bytes} (h : t.write cwd p content = .ok t') :
    t'.read cwd p = .ok content := by
  obtain ⟨place, hlocate, hnode, rfl⟩ := write_eq_ok.1 h
  refine read_eq_ok.2 ⟨place, locate_mono (keepsDirectories_put hnode content) hlocate, ?_⟩
  rw [node?_put (ne_nil_of_node? hnode), if_pos rfl]

/-- A path that a file is read from does not end by going up. -/
theorem name_ne_of_read {content : Bytes} (h : t.read cwd p = .ok content) :
    (cwd.join p).segments.getLast? ≠ some ['.', '.'] := by
  obtain ⟨place, hlocate, hnode⟩ := read_eq_ok.1 h
  intro hlast
  obtain ⟨-, -, hopen⟩ := locate_eq_ok hlocate
  cases (hopen hlast place (List.prefix_refl _)).symm.trans hnode

-- ---------------------------------------------------------------------------
-- Making directories
-- ---------------------------------------------------------------------------

theorem IsOpen.of_dropLast (h : t.IsOpen place.dropLast)
    (hnode : t.node? place = some .directory) : t.IsOpen place := by
  rcases List.eq_nil_or_concat place with rfl | ⟨front, last, rfl⟩
  · exact isOpen_nil t
  · rw [List.concat_eq_append] at h hnode ⊢
    rw [List.dropLast_concat] at h
    exact isOpen_append_singleton.2 ⟨h, hnode⟩

theorem onlyMakesDirectories_put (h : t.node? place = none) :
    OnlyMakesDirectories t (t.put place .directory) := by
  intro q
  rw [node?_put (ne_nil_of_node? (node?_ne_of_none h))]
  split
  · rename_i hq
    exact .inr ⟨hq ▸ h, rfl⟩
  · exact .inl rfl

/-- A directory that has been made can be come to. -/
theorem makeDirectory_eq_ok (h : t.makeDirectory cwd p = .ok t') :
    OnlyMakesDirectories t t' ∧ t'.locate cwd p = .ok (placeOf cwd p) ∧
      t'.IsOpen (placeOf cwd p) := by
  simp only [makeDirectory, bind, Except.bind] at h
  cases hlocate : t.locate cwd p with
  | error reason =>
    rw [hlocate] at h
    cases h
  | ok place =>
    rw [hlocate] at h
    obtain ⟨rfl, habove, -⟩ := locate_eq_ok hlocate
    dsimp only at h
    split at h
    · rename_i hnone
      cases h
      have hmakes := onlyMakesDirectories_put hnone
      refine ⟨hmakes, locate_mono hmakes.keepsDirectories hlocate, ?_⟩
      refine (habove.mono hmakes.keepsDirectories).of_dropLast ?_
      rw [node?_put (ne_nil_of_node? (node?_ne_of_none hnone)), if_pos rfl]
    · rename_i hdirectory
      cases h
      exact ⟨.refl t, hlocate, habove.of_dropLast hdirectory⟩
    · cases h

/-- Making directories changes nothing else, whether it succeeds or not. Where it succeeds, the
directory can be come to. -/
theorem makeDirectories_spec {result : Except FileError Unit}
    (h : t.makeDirectories cwd p = (t', result)) :
    OnlyMakesDirectories t t' ∧
      (result = .ok () → t'.locate cwd p = .ok (placeOf cwd p) ∧ t'.IsOpen (placeOf cwd p)) := by
  induction hn : p.segments.length using Nat.strongRecOn generalizing p t t' result with
  | ind n ih =>
    subst hn
    rw [makeDirectories] at h
    split at h
    · rename_i made hmake
      cases h
      obtain ⟨hmakes, hopen⟩ := makeDirectory_eq_ok hmake
      exact ⟨hmakes, fun _ => hopen⟩
    · split at h
      · cases h
        refine ⟨.refl t, ?_⟩
        rintro ⟨⟩
      · rename_i hne
        have hshorter : p.parent.segments.length < p.segments.length := by
          have := List.length_pos_iff.2 hne
          simp only [Path.parent, List.length_dropLast]
          omega
        split at h
        · rename_i hparent
          cases h
          refine ⟨(ih _ hshorter hparent rfl).1, ?_⟩
          rintro ⟨⟩
        · rename_i above hparent
          have habove := (ih _ hshorter hparent rfl).1
          split at h
          · rename_i made hmake
            cases h
            obtain ⟨hmakes, hopen⟩ := makeDirectory_eq_ok hmake
            exact ⟨habove.trans hmakes, fun _ => hopen⟩
          · cases h
            refine ⟨habove, ?_⟩
            rintro ⟨⟩
    · cases h
      refine ⟨.refl t, ?_⟩
      rintro ⟨⟩

-- ---------------------------------------------------------------------------
-- Names in a directory
-- ---------------------------------------------------------------------------

def child (directory : Path) (name : Text) : Path := directory.join ⟨.relative, [name]⟩

variable {directory : Path} {name : Text}

theorem parent_child (directory : Path) (name : Text) :
    (child directory name).parent = directory := by
  simp [child, Path.join, Path.parent]

theorem segments_join_child :
    (cwd.join (child directory name)).segments = (cwd.join directory).segments ++ [name] := by
  unfold child Path.join
  simp only [if_true]
  split
  · exact (List.append_assoc _ _ _).symm
  · rfl

theorem placeOf_child (hname : name ≠ ['.', '.']) :
    placeOf cwd (child directory name) = placeOf cwd directory ++ [name] := by
  rw [placeOf, Path.collapse, segments_join_child, List.foldl_append, List.foldl_cons,
    List.foldl_nil, Path.collapseStep, if_neg hname, List.reverse_cons]
  rfl

/-- A directory that is found and can be come to is gone through. -/
theorem foldlM_enter_of_locate (h : t.locate cwd p = .ok place) (hopen : t.IsOpen place) :
    (cwd.join p).segments.foldlM t.enter [] = .ok place := by
  simp only [locate, bind, Except.bind, pure, Except.pure, throw, throwThe,
    MonadExceptOf.throw] at h
  split at h
  · cases h
  · split at h
    · cases h
    · rename_i above habove
      rcases List.eq_nil_or_concat (cwd.join p).segments with hnil | ⟨front, last, hconcat⟩
      · rw [hnil] at h habove ⊢
        cases h
        exact habove
      · rw [List.concat_eq_append] at hconcat
        rw [hconcat, List.dropLast_concat] at habove
        rw [hconcat, List.getLast?_concat] at h
        rw [hconcat, List.foldlM_append, habove]
        change (List.foldlM t.enter above [last]) = _
        rw [List.foldlM_cons, enter]
        dsimp only at h
        split at h
        · rename_i hup
          cases h
          rw [if_pos hup]
          rfl
        · rename_i hup
          split at h
          · cases h
          · rename_i hlength
            cases h
            rw [if_neg hup, if_neg hlength, hopen _ (List.prefix_refl _)]
            rfl

/-- A name is found in a directory that can be come to. -/
theorem locate_child (h : t.locate cwd directory = .ok place) (hopen : t.IsOpen place)
    (hname : name ≠ ['.', '.']) (hshort : exceeds maxNameLength name = false)
    (hlength : exceeds maxPathLength (child directory name).toText = false) :
    t.locate cwd (child directory name) = .ok (place ++ [name]) := by
  simp only [locate, bind, Except.bind, pure, Except.pure, throw, throwThe, MonadExceptOf.throw]
  rw [if_neg (Bool.eq_false_iff.1 hlength), segments_join_child, List.dropLast_concat,
    foldlM_enter_of_locate h hopen, List.getLast?_concat]
  dsimp only
  rw [if_neg hname, if_neg (Bool.eq_false_iff.1 hshort)]

-- ---------------------------------------------------------------------------
-- Directories that can be made
-- ---------------------------------------------------------------------------

/-- Whether no file stands at a place or above it. -/
def IsClear (t : FileTree) (place : List Text) : Prop :=
  ∀ above, above <+: place → ∀ content, t.node? above ≠ some (.file content)

theorem IsClear.of_isPrefix (h : t.IsClear place) (hinitial : place' <+: place) : t.IsClear place' :=
  fun above habove => h above (habove.trans hinitial)

/-- Whether all names can be those of files, and none goes up. -/
def AreNames (segments : List Text) : Prop :=
  ∀ segment ∈ segments, segment ≠ ['.', '.'] ∧ exceeds maxNameLength segment = false

theorem enter_eq {segment : Text}
    (h : segment ≠ ['.', '.'] ∧ exceeds maxNameLength segment = false) :
    t.enter place segment = match t.node? (place ++ [segment]) with
      | some .directory => .ok (place ++ [segment])
      | some (.file _) => .error .notDirectory
      | none => .error .missing :=
  (if_neg h.1).trans (if_neg (Bool.eq_false_iff.1 h.2))

theorem foldlM_enter_of_isOpen {segments : List Text} (hnames : AreNames segments)
    (hopen : t.IsOpen (place ++ segments)) :
    segments.foldlM t.enter place = .ok (place ++ segments) := by
  induction segments generalizing place with
  | nil =>
    rw [List.append_nil]
    rfl
  | cons segment rest ih =>
    obtain ⟨hfirst, hrest⟩ := List.forall_mem_cons.1 hnames
    have hsplit : place ++ segment :: rest = place ++ [segment] ++ rest := by simp
    rw [hsplit] at hopen ⊢
    rw [List.foldlM_cons, enter_eq hfirst, hopen _ (List.prefix_append _ _)]
    exact ih hrest hopen

/-- Where no file stands on the way, all that can be in the way is that something is missing. -/
theorem foldlM_enter_of_isClear {segments : List Text} (hnames : AreNames segments)
    (hclear : t.IsClear (place ++ segments)) :
    segments.foldlM t.enter place = .ok (place ++ segments) ∨
      segments.foldlM t.enter place = .error .missing := by
  induction segments generalizing place with
  | nil =>
    rw [List.append_nil]
    exact .inl rfl
  | cons segment rest ih =>
    obtain ⟨hfirst, hrest⟩ := List.forall_mem_cons.1 hnames
    have hsplit : place ++ segment :: rest = place ++ [segment] ++ rest := by simp
    rw [hsplit] at hclear ⊢
    rw [List.foldlM_cons, enter_eq hfirst]
    rcases hnode : t.node? (place ++ [segment]) with _ | content | _
    · exact .inr rfl
    · exact absurd hnode (hclear _ (List.prefix_append _ _) content)
    · exact ih hrest hclear

theorem locate_eq (hlength : exceeds maxPathLength p.toText = false)
    (hnames : AreNames (cwd.join p).segments) :
    t.locate cwd p = (cwd.join p).segments.dropLast.foldlM t.enter [] >>= fun above =>
      .ok (above ++ (cwd.join p).segments.getLast?.toList) := by
  simp only [locate, hlength, Bool.false_eq_true, if_false, bind, Except.bind, pure, Except.pure]
  cases (cwd.join p).segments.dropLast.foldlM t.enter [] with
  | error reason => rfl
  | ok above =>
    cases hlast : (cwd.join p).segments.getLast? with
    | none => simp
    | some segment =>
      obtain ⟨hup, hshort⟩ := hnames segment (List.mem_of_getLast? hlast)
      simp [hup, hshort]

/-- A directory is made where those above it are there and no file is in its place. -/
theorem exists_makeDirectory (hlength : exceeds maxPathLength p.toText = false)
    (hnames : AreNames (cwd.join p).segments) (hopen : t.IsOpen (cwd.join p).segments.dropLast)
    (hclear : t.IsClear (cwd.join p).segments) :
    ∃ made, t.makeDirectory cwd p = .ok made ∧
      ∀ place, place ≠ (cwd.join p).segments → made.node? place = t.node? place := by
  have habove : AreNames (cwd.join p).segments.dropLast :=
    fun segment hsegment => hnames segment (List.dropLast_subset _ hsegment)
  have hlocate : t.locate cwd p = .ok (cwd.join p).segments := by
    rw [locate_eq hlength hnames, foldlM_enter_of_isOpen habove hopen]
    refine congrArg Except.ok ?_
    rcases List.eq_nil_or_concat (cwd.join p).segments with hnil | ⟨front, last, hconcat⟩
    · simp [hnil]
    · simp [hconcat]
  simp only [makeDirectory, hlocate, bind, Except.bind]
  rcases hnode : t.node? (cwd.join p).segments with _ | content | _
  · refine ⟨_, rfl, fun place hplace => ?_⟩
    rw [node?_put (ne_nil_of_node? (node?_ne_of_none hnode)), if_neg hplace]
  · exact absurd hnode (hclear _ (List.prefix_refl _) content)
  · exact ⟨_, rfl, fun _ _ => rfl⟩

theorem exceeds_of_isPrefix {limit : Nat} {s s' : Text} (h : s <+: s')
    (hs : exceeds limit s' = false) : exceeds limit s = false := by
  obtain ⟨rest, rfl⟩ := h
  have hs := of_decide_eq_false hs
  rw [Charset.Utf8.encode, List.flatMap_append, List.length_append] at hs
  exact decide_eq_false fun hlt => hs (Nat.lt_of_lt_of_le hlt (Nat.le_add_right _ _))

theorem joinWith_isPrefix (separator : Text) (front : List Text) (last : Text) :
    Text.joinWith separator front <+: Text.joinWith separator (front ++ [last]) := by
  induction front with
  | nil => exact List.nil_prefix
  | cons first rest ih =>
    cases rest with
    | nil => simp [Text.joinWith, List.intercalate]
    | cons second rest =>
      rw [List.cons_append, List.cons_append, Text.joinWith_cons_cons, Text.joinWith_cons_cons]
      exact (List.prefix_append_right_inj _).2 ih

theorem exceeds_parent (hne : p.segments ≠ []) (h : exceeds maxPathLength p.toText = false) :
    exceeds maxPathLength p.parent.toText = false := by
  obtain ⟨anchor, segments⟩ := p
  obtain ⟨front, last, rfl⟩ := (List.eq_nil_or_concat segments).resolve_left hne
  rw [List.concat_eq_append, Path.toText, if_neg (by simp)] at h
  rw [List.concat_eq_append, Path.parent, Path.toText, List.dropLast_concat]
  split
  · decide
  · refine exceeds_of_isPrefix ?_ h
    exact (List.prefix_append_right_inj _).2 (joinWith_isPrefix _ _ _)

theorem segments_join_parent (cwd : Path) (hne : p.segments ≠ []) :
    (cwd.join p.parent).segments = (cwd.join p).segments.dropLast := by
  unfold Path.join Path.parent
  dsimp only
  split
  · exact (List.dropLast_append_of_ne_nil hne).symm
  · rfl

/-- Where no file is in the way, a directory that cannot be made lacks one above it. -/
theorem makeDirectory_eq_missing (hlength : exceeds maxPathLength p.toText = false)
    (hnames : AreNames (cwd.join p).segments) (hclear : t.IsClear (cwd.join p).segments)
    (hclosed : ¬ t.IsOpen (cwd.join p).segments.dropLast) :
    t.makeDirectory cwd p = .error .missing := by
  have habove : AreNames (cwd.join p).segments.dropLast :=
    fun segment hsegment => hnames segment (List.dropLast_subset _ hsegment)
  have hlocate := locate_eq (t := t) hlength hnames
  have hwalk : (cwd.join p).segments.dropLast.foldlM t.enter [] =
        .ok (cwd.join p).segments.dropLast ∨
      (cwd.join p).segments.dropLast.foldlM t.enter [] = .error .missing :=
    foldlM_enter_of_isClear habove (hclear.of_isPrefix (List.dropLast_prefix _))
  rcases hwalk with hok | hmissing
  · exact absurd (foldlM_enter_eq_ok hok (isOpen_nil t)).1 hclosed
  · rw [hmissing] at hlocate
    simp only [makeDirectory, hlocate, bind, Except.bind]

/-- A directory is made, with all that is missing above it, where no file is in the way. -/
theorem exists_makeDirectories (hcwd : t.IsOpen cwd.segments)
    (hlength : exceeds maxPathLength p.toText = false) (hnames : AreNames (cwd.join p).segments)
    (hclear : t.IsClear (cwd.join p).segments) :
    ∃ made, t.makeDirectories cwd p = (made, .ok ()) ∧
      ∀ place, ¬ place <+: (cwd.join p).segments → made.node? place = t.node? place := by
  induction hn : p.segments.length using Nat.strongRecOn generalizing p with
  | ind n ih =>
    subst hn
    by_cases hopen : t.IsOpen (cwd.join p).segments.dropLast
    · obtain ⟨made, hmade, hframe⟩ := exists_makeDirectory hlength hnames hopen hclear
      refine ⟨made, by rw [makeDirectories, hmade], fun place hplace => hframe place ?_⟩
      exact fun heq => hplace (heq ▸ List.prefix_refl _)
    · have hne : p.segments ≠ [] := by
        intro hnil
        refine hopen (IsOpen.dropLast ?_)
        unfold Path.join
        rw [hnil, List.append_nil]
        split
        · exact hcwd
        · rw [hnil]
          exact isOpen_nil t
      have hshorter : p.parent.segments.length < p.segments.length := by
        have := List.length_pos_iff.2 hne
        simp only [Path.parent, List.length_dropLast]
        omega
      have hparent := segments_join_parent cwd hne
      obtain ⟨above, habove, hframe⟩ := ih _ hshorter (exceeds_parent hne hlength)
        (fun segment hsegment => hnames segment (List.dropLast_subset _ (hparent ▸ hsegment)))
        (hparent ▸ hclear.of_isPrefix (List.dropLast_prefix _)) rfl
      obtain ⟨hmakes, hdone⟩ := makeDirectories_spec habove
      have hclear' : above.IsClear (cwd.join p).segments :=
        fun place hplace content hfile => hclear place hplace content (hmakes.file_iff.1 hfile)
      have hopen' : above.IsOpen (cwd.join p).segments.dropLast := by
        have hup : ['.', '.'] ∉ (cwd.join p.parent).segments := fun hmem =>
          (hnames _ (List.dropLast_subset _ (hparent ▸ hmem))).1 rfl
        have hplace : placeOf cwd p.parent = (cwd.join p.parent).segments := by
          rw [placeOf, Path.collapse_of_not_mem hup]
        exact hparent ▸ hplace ▸ (hdone rfl).2
      obtain ⟨made, hmade, hframe'⟩ := exists_makeDirectory hlength hnames hopen' hclear'
      refine ⟨made, ?_, fun place hplace => ?_⟩
      · rw [makeDirectories, makeDirectory_eq_missing hlength hnames hclear hopen]
        dsimp only
        rw [if_neg hne, habove]
        dsimp only
        rw [hmade]
      · rw [hframe' place fun heq => hplace (heq ▸ List.prefix_refl _)]
        refine hframe place fun habove => hplace (habove.trans ?_)
        exact hparent ▸ List.dropLast_prefix _

-- ---------------------------------------------------------------------------
-- Files that can be written
-- ---------------------------------------------------------------------------

/-- Whether nothing is in the way of a file with that name in a directory, which need not be there
yet. -/
structure Admits (t : FileTree) (cwd directory : Path) (name : Text) : Prop where
  isOpen : t.IsOpen cwd.segments
  areNames : AreNames ((cwd.join directory).segments ++ [name])
  isClear : t.IsClear (cwd.join directory).segments
  isVacant : t.node? ((cwd.join directory).segments ++ [name]) ≠ some .directory
  isShort : exceeds maxPathLength (child directory name).toText = false

/-- Where nothing is in the way, the directory is made and the file is written. -/
theorem Admits.exists_write (h : t.Admits cwd directory name) (content : Bytes) :
    ∃ made, t.makeDirectories cwd directory = (made, .ok ()) ∧
      ∃ t', made.write cwd (child directory name) content = .ok t' := by
  have hnames : AreNames (cwd.join directory).segments :=
    fun segment hsegment => h.areNames segment (List.mem_append_left _ hsegment)
  obtain ⟨hname, hshort⟩ := h.areNames name (List.mem_append_right _ List.mem_cons_self)
  have hplace : placeOf cwd directory = (cwd.join directory).segments := by
    rw [placeOf, Path.collapse_of_not_mem fun hmem => (hnames _ hmem).1 rfl]
  have hlength : exceeds maxPathLength directory.toText = false := by
    have hne : (child directory name).segments ≠ [] := by
      unfold child Path.join
      simp
    have hparent := exceeds_parent hne h.isShort
    rwa [parent_child] at hparent
  obtain ⟨made, hmade, hframe⟩ := exists_makeDirectories h.isOpen hlength hnames h.isClear
  obtain ⟨hlocate, hopen⟩ := (makeDirectories_spec hmade).2 rfl
  have hvacant : made.node? (placeOf cwd directory ++ [name]) ≠ some .directory := by
    rw [hplace, hframe _ fun hinitial => ?_]
    · exact h.isVacant
    · have := hinitial.length_le
      rw [List.length_append, List.length_singleton] at this
      omega
  exact ⟨made, hmade, _,
    write_eq_ok.2 ⟨_, locate_child hlocate hopen hname hshort h.isShort, hvacant, rfl⟩⟩

end FileTree

end PageSplice
