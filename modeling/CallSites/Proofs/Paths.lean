import Mathlib.Data.List.Induction
import CallSites.FileTree.Basic

/-!
# Paths below a directory

A path is a text, and a walk makes paths by putting names behind one another. This module says what
such a path is and where it leads. Its names are those of the path it was made from, less an empty
one behind a final slash, and then the names that were put behind it; so the names can be read off
the text again. It leads from where the shorter path leads to the entry of that name, unless the
entry is a link.

Resolving a path takes its names from left to right and follows links as they come, so it resolves
the names of a beginning first and goes on from there, with fewer links left to follow.
-/

namespace CallSites

/-! ## Names in a path -/

theorem piecesOf_ne_nil (cs : List Char) : piecesOf cs ≠ [] := by
  cases cs with
  | nil => exact List.cons_ne_nil _ _
  | cons c cs =>
    rw [piecesOf]
    split
    · exact List.cons_ne_nil _ _
    · split <;> exact List.cons_ne_nil _ _

theorem piecesOf_append_slash (as bs : List Char) :
    piecesOf (as ++ '/' :: bs) = piecesOf as ++ piecesOf bs := by
  induction as with
  | nil => simp [piecesOf]
  | cons a as ih =>
    rw [List.cons_append, piecesOf, piecesOf, ih]
    split
    · rfl
    · cases has : piecesOf as with
      | nil => exact absurd has (piecesOf_ne_nil as)
      | cons piece pieces => rfl

theorem piecesOf_of_not_mem {cs : List Char} (h : '/' ∉ cs) : piecesOf cs = [cs] := by
  induction cs with
  | nil => rfl
  | cons c cs ih =>
    rw [List.mem_cons, not_or] at h
    rw [piecesOf, if_neg (Ne.symm h.1), ih h.2]

theorem pathNames_append_slash (path rest : String) :
    pathNames (path ++ "/" ++ rest) = pathNames path ++ pathNames rest := by
  have hslash : "/".toList = ['/'] := rfl
  rw [pathNames, String.toList_append, String.toList_append, hslash, List.append_assoc,
    List.singleton_append, piecesOf_append_slash, List.map_append]
  rfl

theorem pathNames_of_not_mem {name : String} (h : '/' ∉ name.toList) : pathNames name = [name] := by
  rw [pathNames, piecesOf_of_not_mem h, List.map_singleton, String.ofList_toList]

/-- A text that can name an entry of a directory: neither empty, nor one of the two names that every
directory has for itself and for the one above it, and without a slash. -/
def isEntryName (name : String) : Bool :=
  name != "" && name != "." && name != ".." && !name.toList.contains '/'

theorem isEntryName_iff {name : String} :
    isEntryName name ↔ name ≠ "" ∧ name ≠ "." ∧ name ≠ ".." ∧ '/' ∉ name.toList := by
  simp [isEntryName, and_assoc]

/-- The names of a path up to a final slash. -/
def stemNames (path : String) : List String :=
  if path = "" ∨ path.toList.getLast? = some '/' then (pathNames path).dropLast else pathNames path

/-- The path along some names below another. -/
def pathAlong (path : String) (names : List String) : String :=
  names.foldl joinPath path

theorem pathAlong_concat (path : String) (names : List String) (name : String) :
    pathAlong path (names ++ [name]) = joinPath (pathAlong path names) name := by
  rw [pathAlong, List.foldl_append]
  rfl

theorem exists_append_slash {path : String} (h : path.toList.getLast? = some '/') :
    ∃ start : String, path = start ++ "/" := by
  obtain ⟨start, hstart⟩ := List.getLast?_eq_some_iff.mp h
  refine ⟨String.ofList start, String.toList_injective ?_⟩
  rw [hstart, String.toList_append, String.toList_ofList]
  rfl

theorem pathNames_joinPath (path : String) {name : String} (h : '/' ∉ name.toList) :
    pathNames (joinPath path name) = stemNames path ++ [name] := by
  rw [joinPath, stemNames]
  split
  · rename_i hend
    rcases hend with rfl | hend
    · rw [String.empty_append, pathNames_of_not_mem h]
      rfl
    · obtain ⟨start, rfl⟩ := exists_append_slash hend
      rw [pathNames_append_slash, pathNames_of_not_mem h, ← String.append_empty (s := start ++ "/"),
        pathNames_append_slash]
      congr 1
      exact (List.dropLast_concat ..).symm
  · rw [pathNames_append_slash, pathNames_of_not_mem h]

/-- A final slash has an empty name behind it, and there is no other way to have a name more. -/
theorem exists_pathNames_eq (path : String) :
    ∃ last, (last = [] ∨ last = [""]) ∧ pathNames path = stemNames path ++ last := by
  rw [stemNames]
  split
  · rename_i hend
    refine ⟨[""], .inr rfl, ?_⟩
    rcases hend with rfl | hend
    · rfl
    · obtain ⟨start, rfl⟩ := exists_append_slash hend
      rw [← String.append_empty (s := start ++ "/"), pathNames_append_slash]
      congr 1
      exact (List.dropLast_concat ..).symm
  · exact ⟨[], .inl rfl, (List.append_nil _).symm⟩

theorem joinPath_ne_empty (path : String) {name : String} (h : name ≠ "") :
    joinPath path name ≠ "" := by
  rw [joinPath]
  split <;> simp [h]

theorem stemNames_joinPath (path : String) {name : String} (hne : name ≠ "")
    (hslash : '/' ∉ name.toList) :
    stemNames (joinPath path name) = pathNames (joinPath path name) := by
  rw [stemNames, if_neg]
  rintro (hempty | hend)
  · exact joinPath_ne_empty path hne hempty
  · -- the last character is the last one of the name
    have hlast : (joinPath path name).toList.getLast? = name.toList.getLast? := by
      have hname : name.toList.getLast?.isSome := by simpa using hne
      rw [joinPath]
      split <;> rw [String.toList_append, List.getLast?_append, Option.or_of_isSome hname]
    rw [hlast] at hend
    exact hslash (List.mem_of_getLast? hend)

/-- **The names can be read off**, if they are names at all. -/
theorem pathNames_pathAlong (path : String) {names : List String} (hnames : names ≠ [])
    (h : ∀ n ∈ names, n ≠ "" ∧ '/' ∉ n.toList) :
    pathNames (pathAlong path names) = stemNames path ++ names := by
  induction names using List.reverseRecOn with
  | nil => exact absurd rfl hnames
  | append_singleton names name ih =>
    have hname := h name (by simp)
    rw [pathAlong_concat, pathNames_joinPath _ hname.2]
    cases names using List.reverseRecOn with
    | nil => rfl
    | append_singleton names n =>
      have hn := h n (by simp)
      have hbefore := ih (by simp) fun m hm ↦ h m (List.mem_append_left _ hm)
      rw [pathAlong_concat, stemNames_joinPath _ hn.1 hn.2, ← pathAlong_concat, hbefore,
        List.append_assoc]

/-! ## Places -/

namespace FileTree

theorem at?_append (t : FileTree) (spot more : Spot) :
    t.at? (spot ++ more) = (t.at? spot).bind (·.at? more) := by
  induction spot generalizing t with
  | nil => rfl
  | cons name spot ih =>
    cases t with
    | dir entries =>
      rw [List.cons_append, at?, at?]
      cases entries.lookup name with
      | none => rfl
      | some child => exact ih child
    | _ => rfl

theorem at?_concat {t : FileTree} {spot : Spot} {entries : List (String × FileTree)}
    (h : t.at? spot = some (.dir entries)) (name : String) :
    t.at? (spot ++ [name]) = entries.lookup name := by
  rw [at?_append, h, Option.bind_some, at?]
  cases entries.lookup name <;> rfl

end FileTree

/-! ## Resolving -/

namespace FileSystem

variable {fs : FileSystem}

/-- A way along some names and then others goes on from where the first names lead, or stops at the
first link with all the names behind it. -/
theorem advance_append (fs : FileSystem) (spot : Spot) (names more : List String) :
    fs.advance spot (names ++ more) =
      match fs.advance spot names with
      | .error e => .error e
      | .ok (.arrived there) => fs.advance there more
      | .ok (.link there target rest) => .ok (.link there target (rest ++ more)) := by
  induction names generalizing spot with
  | nil => rfl
  | cons name names ih =>
    rw [List.cons_append, advance, advance]
    split
    · split
      · exact ih spot
      · split
        · exact ih _
        · split
          · rfl
          · rfl
          · exact ih _
    · split
      · exact ih spot
      · rfl
    · rfl

theorem resolveFrom_of_advance_error {links : Nat} {spot : Spot} {names : List String} {e : OsError}
    (h : fs.advance spot names = .error e) : fs.resolveFrom links spot names = .error e := by
  rw [resolveFrom, h]
  rfl

theorem resolveFrom_of_arrived {links : Nat} {spot there : Spot} {names : List String}
    (h : fs.advance spot names = .ok (.arrived there)) :
    fs.resolveFrom links spot names = .ok there := by
  rw [resolveFrom, h]
  rfl

theorem resolveFrom_of_link {links : Nat} {spot there : Spot} {names rest : List String}
    {target : String} (h : fs.advance spot names = .ok (.link there target rest)) :
    fs.resolveFrom links spot names =
      match links with
      | 0 => .error .tooManyLinks
      | links + 1 =>
        if target = "" then .error .notFound
        else fs.resolveFrom links (if isAbsolute target then [] else there)
          (pathNames target ++ rest) := by
  rw [resolveFrom, h]
  cases links <;> rfl

/-- Names are resolved from left to right: with others behind them they fail as they do alone, or
the others are resolved from where they lead, with what is left of the links. -/
theorem resolveFrom_append (fs : FileSystem) (links : Nat) (spot : Spot) (names : List String) :
    (∃ e, ∀ more, fs.resolveFrom links spot (names ++ more) = .error e) ∨
      ∃ there left, fs.resolveFrom links spot names = .ok there ∧
        ∀ more, fs.resolveFrom links spot (names ++ more) = fs.resolveFrom left there more := by
  induction links using Nat.strongRecOn generalizing spot names with
  | ind links ih =>
    have happend := fun more ↦ fs.advance_append spot names more
    cases hadvance : fs.advance spot names with
    | error e =>
      simp only [hadvance] at happend
      exact .inl ⟨e, fun more ↦ resolveFrom_of_advance_error (happend more)⟩
    | ok stop =>
      cases stop with
      | arrived there =>
        simp only [hadvance] at happend
        refine .inr ⟨there, links, resolveFrom_of_arrived hadvance, fun more ↦ ?_⟩
        rw [resolveFrom, resolveFrom, happend]
      | link there target rest =>
        simp only [hadvance] at happend
        cases links with
        | zero => exact .inl ⟨.tooManyLinks, fun more ↦ resolveFrom_of_link (happend more)⟩
        | succ links =>
          by_cases htarget : target = ""
          · refine .inl ⟨.notFound, fun more ↦ ?_⟩
            rw [resolveFrom_of_link (happend more)]
            exact if_pos htarget
          · -- the target takes the place of the link, before the names behind it
            have hfollow : ∀ more, fs.resolveFrom (links + 1) spot (names ++ more) =
                fs.resolveFrom links (if isAbsolute target then [] else there)
                  (pathNames target ++ rest ++ more) := by
              intro more
              rw [resolveFrom_of_link (happend more), List.append_assoc]
              exact if_neg htarget
            have hnames := hfollow []
            rw [List.append_nil, List.append_nil] at hnames
            simp only [hfollow, hnames]
            exact ih links (Nat.lt_succ_self links) _ _

theorem find_eq_ok_iff {path : String} {spot : Spot} {t : FileTree} :
    fs.find path = .ok (spot, t) ↔ path ≠ "" ∧
      fs.resolveFrom linkLimit (if isAbsolute path then [] else fs.here) (pathNames path) =
          .ok spot ∧
        fs.top.at? spot = some t := by
  rw [find, resolve]
  by_cases hpath : path = ""
  · simp [hpath, bind, Except.bind]
  · rw [if_neg hpath]
    cases hresolve : fs.resolveFrom linkLimit (if isAbsolute path then [] else fs.here)
      (pathNames path) with
    | error e => simp [bind, Except.bind]
    | ok there =>
      simp only [bind, Except.bind]
      cases hat : fs.top.at? there with
      | none =>
        simp only [reduceCtorEq, Except.ok.injEq, false_iff, not_and]
        rintro - rfl
        simp [hat]
      | some u =>
        simp only [Except.ok.injEq, Prod.mk.injEq, ne_eq, hpath, not_false_eq_true, true_and]
        constructor
        · rintro ⟨rfl, rfl⟩
          exact ⟨rfl, hat⟩
        · rintro ⟨rfl, hat'⟩
          exact ⟨rfl, Option.some_inj.mp (hat.symm.trans hat')⟩

/-- A final slash changes nothing where a directory is. -/
theorem exists_resolveFrom_stem {links : Nat} {start spot : Spot} {path : String}
    (h : fs.resolveFrom links start (pathNames path) = .ok spot) :
    ∃ left, ∀ more, fs.resolveFrom links start (stemNames path ++ more) =
      fs.resolveFrom left spot more := by
  obtain ⟨last, hlast, hnames⟩ := exists_pathNames_eq path
  rw [hnames] at h
  rcases fs.resolveFrom_append links start (stemNames path) with
    ⟨e, herror⟩ | ⟨there, left, hthere, hmore⟩
  · rw [herror] at h
    cases h
  · refine ⟨left, fun more ↦ ?_⟩
    rw [hmore] at h ⊢
    congr 1
    rcases hlast with rfl | rfl
    · rw [resolveFrom_of_arrived rfl] at h
      exact Except.ok.inj h
    · rw [resolveFrom, advance] at h
      split at h
      · exact Except.ok.inj h
      · exact Except.ok.inj h
      · cases h

theorem isAbsolute_joinPath {path : String} (h : path ≠ "") (name : String) :
    isAbsolute (joinPath path name) = isAbsolute path := by
  have hhead : path.toList.head?.isSome := by simpa using h
  rw [isAbsolute, isAbsolute, joinPath]
  split
  · rw [String.toList_append, List.head?_append, Option.or_of_isSome hhead]
  · rw [String.append_assoc, String.toList_append, List.head?_append, Option.or_of_isSome hhead]

/-- **Entering a directory.** -/
theorem find_joinPath {path name : String} {spot : Spot} {entries : List (String × FileTree)}
    {t : FileTree} (h : fs.find path = .ok (spot, .dir entries)) (hname : isEntryName name)
    (hlookup : entries.lookup name = some t) (hlink : ∀ target, t ≠ .link target) :
    fs.find (joinPath path name) = .ok (spot ++ [name], t) := by
  obtain ⟨hpath, hresolve, hat⟩ := find_eq_ok_iff.mp h
  obtain ⟨hempty, hdot, hdots, hslash⟩ := isEntryName_iff.mp hname
  obtain ⟨left, hmore⟩ := exists_resolveFrom_stem hresolve
  have hadvance : fs.advance spot [name] = .ok (.arrived (spot ++ [name])) := by
    rw [advance, hat]
    simp only [hempty, hdot, hdots, or_self, if_false, hlookup]
    cases t with
    | link target => exact absurd rfl (hlink target)
    | _ => rfl
  refine find_eq_ok_iff.mpr ⟨joinPath_ne_empty path hempty, ?_, ?_⟩
  · rw [isAbsolute_joinPath hpath, pathNames_joinPath path hslash, hmore]
    exact resolveFrom_of_arrived hadvance
  · rw [FileTree.at?_concat hat, hlookup]

end FileSystem

end CallSites
