import LoxLang.Command.FileTree

/-!
# Writing one file

Writing a file changes what is at its place and nothing else.  A path that was followed
before still leads to where it led, since no path goes on behind a file.
-/

namespace LoxLang.FileTree

theorem lookup_put (place path : List String) (entry : FileEntry)
    (entries : List (List String × FileEntry)) :
    (put place entry entries).lookup path =
      if path = place then some entry else entries.lookup path := by
  induction entries with
  | nil =>
      rw [put, List.lookup_cons]
      by_cases hpath : path = place
      · simp [hpath]
      · rw [if_neg hpath, beq_eq_false_iff_ne.mpr hpath]
  | cons first rest ih =>
      obtain ⟨other, old⟩ := first
      rw [put]
      by_cases hother : other = place
      · rw [if_pos hother, hother, List.lookup_cons, List.lookup_cons]
        by_cases hpath : path = place
        · simp [hpath]
        · rw [if_neg hpath, beq_eq_false_iff_ne.mpr hpath]
      · rw [if_neg hother, List.lookup_cons, List.lookup_cons, ih]
        by_cases hpath : path = other
        · simp [hpath, hother]
        · rw [beq_eq_false_iff_ne.mpr hpath]

section

variable {tree : FileTree} {place : List String}

theorem find?_write (h : tree.find? place ≠ some .directory) (text : String)
    (path : List String) :
    (tree.write place text).find? path =
      if path = place then some (.file (Utf8.encode text)) else tree.find? path := by
  have hplace : place.isPrefixOf tree.working = false := by
    rw [Bool.eq_false_iff]
    intro hprefix
    exact h (if_pos hprefix)
  unfold find? write
  dsimp only
  by_cases hpath : path = place
  · simp [hpath, hplace, lookup_put]
  · simp [hpath, lookup_put]

theorem descend_write (h : tree.find? place ≠ some .directory) (text : String)
    {path next : List String} {part : String} (hdescend : tree.descend path part = .ok next) :
    (tree.write place text).descend path part = .ok next := by
  unfold descend at hdescend ⊢
  by_cases hpath : tree.find? path = some .directory
  · have hother : path ≠ place := by
      rintro rfl
      exact h hpath
    have hsame : (tree.write place text).find? path = some .directory := by
      rw [find?_write h, if_neg hother, hpath]
    have hkept : (tree.find? (path ++ [part])).isSome = true →
        ((tree.write place text).find? (path ++ [part])).isSome = true := by
      rw [find?_write h]
      split
      · exact fun _ => rfl
      · exact id
    simp only [hpath, hsame, ne_eq, not_true_eq_false, if_false] at hdescend ⊢
    split at hdescend
    next hstays =>
      rw [if_pos hstays]
      exact hdescend
    next hstays =>
      rw [if_neg hstays]
      split at hdescend
      next hup =>
        rw [if_pos hup]
        exact hdescend
      next hup =>
        rw [if_neg hup]
        split at hdescend
        next hfound =>
          rw [if_pos (hkept hfound)]
          exact hdescend
        next => cases hdescend
  · simp only [hpath, ne_eq, not_false_eq_true, if_true] at hdescend
    cases hdescend

theorem foldlM_descend_write (h : tree.find? place ≠ some .directory) (text : String)
    {start found : List String} {parts : List String}
    (hfollow : parts.foldlM tree.descend start = .ok found) :
    parts.foldlM (tree.write place text).descend start = .ok found := by
  induction parts generalizing start with
  | nil => exact hfollow
  | cons part rest ih =>
      rw [List.foldlM_cons] at hfollow ⊢
      cases hnext : tree.descend start part with
      | error error =>
          rw [hnext] at hfollow
          cases hfollow
      | ok next =>
          rw [hnext] at hfollow
          rw [descend_write h text hnext]
          exact ih hfollow

theorem follow_write (h : tree.find? place ≠ some .directory) (text : String) {absolute : Bool}
    {parts found : List String} (hfollow : tree.follow absolute parts = .ok found) :
    (tree.write place text).follow absolute parts = .ok found :=
  foldlM_descend_write h text hfollow

theorem lookup_of_follow {path : String} {found : List String}
    (h : tree.follow (Path.isAbsolute path) (Path.steps path) = .ok found) :
    tree.lookup path = tree.find? found := by
  rw [lookup, h]

theorem lookup_write (h : tree.find? place ≠ some .directory) (text : String) {path : String}
    {found : List String}
    (hfollow : tree.follow (Path.isAbsolute path) (Path.steps path) = .ok found)
    (hother : found ≠ place) : (tree.write place text).lookup path = tree.lookup path := by
  rw [lookup_of_follow (follow_write h text hfollow), lookup_of_follow hfollow, find?_write h,
    if_neg hother]

theorem lookup_write_self (h : tree.find? place ≠ some .directory) (text : String) {path : String}
    (hfollow : tree.follow (Path.isAbsolute path) (Path.steps path) = .ok place) :
    (tree.write place text).lookup path = some (.file (Utf8.encode text)) := by
  rw [lookup_of_follow (follow_write h text hfollow), find?_write h, if_pos rfl]

theorem isFile_of_write (h : tree.find? place ≠ some .directory) (text : String) :
    (tree.write place text).find? place ≠ some .directory := by
  rw [find?_write h, if_pos rfl]
  simp

theorem exists_follow_of_lookup {path : String} {entry : FileEntry}
    (h : tree.lookup path = some entry) :
    ∃ found, tree.follow (Path.isAbsolute path) (Path.steps path) = .ok found ∧
      tree.find? found = some entry := by
  unfold lookup at h
  split at h
  next found hfollow => exact ⟨found, hfollow, h⟩
  next => cases h

theorem find?_of_writable {path : String} (h : tree.writable path = .ok place) :
    tree.find? place ≠ some .directory := by
  unfold writable at h
  dsimp only at h
  split at h
  next => cases h
  next =>
    generalize ((Path.components path).reverse.dropWhile (· = "")).reverse = trimmed at h
    cases hparent : tree.follow (Path.isAbsolute path) trimmed.dropLast with
    | error error =>
        rw [hparent] at h
        cases h
    | ok parent =>
        rw [hparent] at h
        change (if tree.find? parent ≠ some .directory then _ else _) = _ at h
        split at h
        next => cases h
        next =>
          split at h
          next => cases h
          next hfree =>
            cases h
            simp only [Bool.or_eq_true, decide_eq_true_eq, not_or] at hfree
            exact hfree.2

end

end LoxLang.FileTree
