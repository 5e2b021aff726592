import Fiudp.Session.Store

/-!
# Which key paths share a counter

The session path depends on the text of the key path up to its file stem, so key files that
differ in their extension only share one counter.
-/

namespace Fiudp.PathBuf

/-! ## The text an extension is appended to -/

/-- The text of a path up to the end of its file stem, if it has a file name. -/
def stemText (path : PathBuf) : Option (List Char) :=
  path.fileName.map fun name =>
    (path.lastComponentRev.drop (name.length - (fileStem name).length)).reverse

theorem setExtension_eq (path : PathBuf) {extension : List Char} (hextension : extension ≠ []) :
    path.setExtension extension =
      (path.stemText.map fun kept => ⟨kept ++ '.' :: extension⟩).getD path := by
  rw [setExtension, stemText]
  cases path.fileName with
  | none => rfl
  | some name => simp only [if_neg hextension, Option.map_some, Option.getD_some]

theorem fileStem_leading (name : List Char) : fileStem name <+: name := by
  rw [fileStem]
  split
  · exact List.prefix_rfl
  · rw [← List.reverse_suffix, List.reverse_reverse]
    exact (List.drop_suffix 1 _).trans (List.dropWhile_suffix _)

theorem fileStem_ne_nil {name : List Char} (hname : name ≠ []) : fileStem name ≠ [] := by
  rw [fileStem]
  split
  · exact hname
  · assumption

/-- A directory and, in it, a name without a separator. -/
structure Located (text parent stem : List Char) : Prop where
  text_eq : text = parent ++ stem
  parent_ends : ∀ last, parent.getLast? = some last → last = '/'
  stem_ne_nil : stem ≠ []
  stem_flat : '/' ∉ stem

theorem located_fileName {path : PathBuf} {name : List Char} (hname : path.fileName = some name) :
    ∃ parent, Located path.lastComponentRev.reverse parent name := by
  rw [fileName] at hname
  split_ifs at hname with hnone
  cases hname
  have hsplit : path.lastComponentRev.takeWhile (· ≠ '/') ++
      path.lastComponentRev.dropWhile (· ≠ '/') = path.lastComponentRev :=
    List.takeWhile_append_dropWhile
  refine ⟨(path.lastComponentRev.dropWhile (· ≠ '/')).reverse, ?_, ?_, ?_, ?_⟩
  · rw [← List.reverse_append, hsplit]
  · intro last hlast
    rw [List.getLast?_reverse] at hlast
    have hhead := List.head?_dropWhile_not (· ≠ '/') path.lastComponentRev
    rw [hlast] at hhead
    simpa using hhead
  · exact fun hnil => hnone (.inl hnil)
  · intro hmem
    have hslash := List.mem_takeWhile_imp (List.mem_reverse.mp hmem)
    simp at hslash

/-- The extension is appended to a file stem in its directory. -/
theorem exists_located {path : PathBuf} {kept : List Char} (hkept : path.stemText = some kept) :
    ∃ parent stem, Located kept parent stem := by
  obtain ⟨name, hname, rfl⟩ := Option.map_eq_some_iff.mp hkept
  obtain ⟨parent, hlocated⟩ := located_fileName hname
  have hstem := fileStem_ne_nil hlocated.stem_ne_nil
  obtain ⟨rest, hrest⟩ := fileStem_leading name
  generalize fileStem name = stem at hstem hrest ⊢
  subst hrest
  refine ⟨parent, stem, ?_, hlocated.parent_ends, hstem,
    fun hmem => hlocated.stem_flat (List.mem_append_left _ hmem)⟩
  have hrev : path.lastComponentRev = rest.reverse ++ (parent ++ stem).reverse := by
    rw [← List.reverse_inj, hlocated.text_eq]
    simp
  rw [hrev, List.length_append, Nat.add_sub_cancel_left, ← List.length_reverse,
    List.drop_left, List.reverse_reverse]

/-! ## The stem of a path with an extension -/

/-- A separator or a dot at the end is all that `stripTail` looks at. -/
theorem stripTail_of_getLast {text : List Char} {last : Char} (hslash : last ≠ '/')
    (hdot : last ≠ '.') : stripTail (last :: text) = last :: text := by
  rw [stripTail.eq_def]
  split
  · simp_all
  · simp_all
  · simp_all
  · rfl

variable {extension : List Char}

/-- An extension that `set_extension` can append without adding a component or a dot. -/
structure PlainExtension (extension : List Char) : Prop where
  ne_nil : extension ≠ []
  slash : '/' ∉ extension
  dot : '.' ∉ extension

theorem lastComponentRev_append (hextension : PlainExtension extension) (kept : List Char) :
    lastComponentRev ⟨kept ++ '.' :: extension⟩ = extension.reverse ++ '.' :: kept.reverse := by
  obtain hnil | ⟨front, last, rfl⟩ := List.eq_nil_or_concat' extension
  · exact absurd hnil hextension.ne_nil
  have hslash : last ≠ '/' := fun heq => hextension.slash (by simp [heq])
  have hdot : last ≠ '.' := fun heq => hextension.dot (by simp [heq])
  rw [lastComponentRev, List.reverse_append, List.reverse_cons, List.reverse_concat]
  simpa using stripTail_of_getLast hslash hdot

theorem fileName_append (hextension : PlainExtension extension) {kept parent stem : List Char}
    (hlocated : Located kept parent stem) :
    fileName ⟨kept ++ '.' :: extension⟩ = some (stem ++ '.' :: extension) := by
  have hflat : ∀ char ∈ (stem ++ '.' :: extension).reverse, decide (char ≠ '/') = true := by
    intro char hchar
    rw [decide_eq_true_iff]
    rintro rfl
    rcases List.mem_append.mp (List.mem_reverse.mp hchar) with hstem | hrest
    · exact hlocated.stem_flat hstem
    · exact hextension.slash (List.mem_of_ne_of_mem (by decide) hrest)
  have hparent : parent.reverse.takeWhile (· ≠ '/') = [] := by
    rw [List.takeWhile_eq_nil_iff]
    intro hpos
    have hlast := hlocated.parent_ends (parent.reverse[0]) (by
      rw [← List.head?_reverse, List.head?_eq_getElem?, List.getElem?_eq_getElem hpos])
    simp [hlast]
  have hname : (extension.reverse ++ '.' :: kept.reverse).takeWhile (· ≠ '/')
      = (stem ++ '.' :: extension).reverse := by
    calc (extension.reverse ++ '.' :: kept.reverse).takeWhile (· ≠ '/')
        = ((stem ++ '.' :: extension).reverse ++ parent.reverse).takeWhile
            (· ≠ '/') := by simp [hlocated.text_eq]
      _ = (stem ++ '.' :: extension).reverse := by
          rw [List.takeWhile_append_of_pos hflat, hparent, List.append_nil]
  have hstem := List.length_pos_of_ne_nil hlocated.stem_ne_nil
  have hpos := List.length_pos_of_ne_nil hextension.ne_nil
  rw [fileName, lastComponentRev_append hextension, hname, List.reverse_reverse, if_neg]
  rintro (hnil | hdots)
  · simp at hnil
  · have hlength := congrArg List.length hdots
    simp only [List.length_append, List.length_cons, List.length_nil] at hlength
    omega

theorem fileStem_append (hextension : PlainExtension extension) {stem : List Char}
    (hstem : stem ≠ []) : fileStem (stem ++ '.' :: extension) = stem := by
  have hdots : ∀ char ∈ extension.reverse, decide (char ≠ '.') = true := by
    intro char hchar
    rw [decide_eq_true_iff]
    rintro rfl
    exact hextension.dot (List.mem_reverse.mp hchar)
  have hdrop : (stem ++ '.' :: extension).reverse.dropWhile (· ≠ '.') =
      '.' :: stem.reverse := by
    rw [List.reverse_append, List.reverse_cons, List.append_assoc,
      List.dropWhile_append_of_pos hdots]
    simp
  rw [fileStem, hdrop, List.drop_one, List.tail_cons, List.reverse_reverse, if_neg hstem]

/-- The extension appended last is the one that is replaced next. -/
theorem stemText_append (hextension : PlainExtension extension) {kept parent stem : List Char}
    (hlocated : Located kept parent stem) :
    stemText ⟨kept ++ '.' :: extension⟩ = some kept := by
  have hlength : (stem ++ '.' :: extension).length - stem.length =
      (extension.reverse ++ ['.']).length := by
    simp
  have hsplit : extension.reverse ++ '.' :: kept.reverse =
      (extension.reverse ++ ['.']) ++ kept.reverse := by
    simp
  rw [stemText, fileName_append hextension hlocated, Option.map_some,
    fileStem_append hextension hlocated.stem_ne_nil, lastComponentRev_append hextension,
    hlength, hsplit, List.drop_left, List.reverse_reverse]

theorem stemText_setExtension (hextension : PlainExtension extension) (path : PathBuf) :
    (path.setExtension extension).stemText = path.stemText := by
  rw [setExtension_eq path hextension.ne_nil]
  cases hkept : path.stemText with
  | none => exact hkept
  | some kept =>
      obtain ⟨parent, stem, hlocated⟩ := exists_located hkept
      exact stemText_append hextension hlocated

end Fiudp.PathBuf

namespace Fiudp.Session

open PathBuf

/-! ## The path of the counter -/

theorem plainExtension_session : PlainExtension "session_id".toList where
  ne_nil := by decide
  slash := by decide
  dot := by decide

theorem session_path_eq (path : PathBuf) :
    (SessionIdStore.new path).path =
      (path.stemText.map fun kept => ⟨kept ++ ".session_id".toList⟩).getD path :=
  path.setExtension_eq plainExtension_session.ne_nil

/-- Two key paths share a counter exactly if they are one path, or have one file stem in
one directory, as they are spelled; the path of the counter itself is among the paths that
share it. -/
theorem counter_shared_iff (path other : PathBuf) :
    ((SessionIdStore.new path).path = (SessionIdStore.new other).path ↔
      path = other ∨ ∃ kept, path.stemText = some kept ∧ other.stemText = some kept) ∧
      (SessionIdStore.new (SessionIdStore.new path).path).path =
        (SessionIdStore.new path).path := by
  have hstem (path : PathBuf) : (SessionIdStore.new path).path.stemText = path.stemText :=
    stemText_setExtension plainExtension_session path
  refine ⟨⟨fun hshared => ?_, ?_⟩, ?_⟩
  · have hsame : path.stemText = other.stemText := by
      rw [← hstem path, hshared, hstem other]
    cases hkept : path.stemText with
    | none =>
        rw [session_path_eq, session_path_eq, ← hsame, hkept] at hshared
        exact .inl hshared
    | some kept => exact .inr ⟨kept, rfl, hsame ▸ hkept⟩
  · rintro (rfl | ⟨kept, hpath, hother⟩)
    · rfl
    · rw [session_path_eq, session_path_eq, hpath, hother]
      rfl
  · rw [session_path_eq (SessionIdStore.new path).path, hstem]
    cases hkept : path.stemText with
    | none => rfl
    | some kept => rw [session_path_eq, hkept]; rfl

end Fiudp.Session
