import AtomicSet.Files.FileTree
import Mathlib.Data.List.Infix

/-!
# What happens to a file tree

Nothing is ever taken out of a tree, and no directory takes the place of a file. A place where there
is something keeps it, up to text at the end of a file; a place where there is nothing gets a
directory only if it is one of those that a path leads through.

Where a path leads does not depend on the tree: there is nothing in a tree but files and
directories, so two dots always lead back to where the name before them was looked up.

## Main definitions

* `Path.lead`, `Path.place`, `Path.ways` — where names lead, where a path leads, and through which
  places names lead.
* `FileTree.Leads`, `FileTree.Walked` — the directories that have to be there.
* `FileTree.Paved` — all that creating directories can change.

## Main results

* `FileTree.walk_eq_ok` — names that can be followed lead where they always lead.
* `FileTree.paved_makeDirectories`, `FileTree.walked_makeDirectories` — creating the directories of
  a path adds missing ones among those it leads through, and if it succeeds all of them are there.
* `FileTree.openForAppending_eq_ok` — a file that was opened was there, or is new.
-/

namespace AtomicSet

namespace Path

/-! ### Places -/

/-- A text is cut into segments at its slashes. -/
theorem ofText_eq (text : String) :
    ofText text = ⟨(text.toList.splitOn '/').map String.ofList⟩ := by
  rw [ofText, String.toList_split_char]

/-- The place to which names lead from the place `p` on. -/
def lead (p : Place) (names : List String) : Place :=
  names.foldl (fun p name => if name = ".." then p.dropLast else p ++ [name]) p

/-- The place to which a path leads. -/
def place (p : Path) : Place :=
  lead [] p.names

/-- The places that names lead through, the first and the last one included. -/
def ways (names : List String) : List Place :=
  names.inits.map (lead [])

/-- Two dots lead to the place above. -/
theorem lead_cons_up (p : Place) (names : List String) :
    lead p (".." :: names) = lead p.dropLast names := rfl

/-- Any other name leads to the place of that name. -/
theorem lead_cons_name (p : Place) {name : String} (hname : name ≠ "..") (names : List String) :
    lead p (name :: names) = lead (p ++ [name]) names := by
  rw [lead, List.foldl_cons, if_neg hname]
  rfl

/-- A last name that is not two dots leads to the place of that name. -/
theorem lead_concat (p : Place) (names : List String) {name : String} (hname : name ≠ "..") :
    lead p (names ++ [name]) = lead p names ++ [name] := by
  rw [lead, List.foldl_append, List.foldl_cons, List.foldl_nil, if_neg hname]
  rfl

/-- Names lead through the places to which their first ones lead. -/
theorem mem_ways {names : List String} {q : Place} :
    q ∈ ways names ↔ ∃ names', names' <+: names ∧ lead [] names' = q := by
  simp only [ways, List.mem_map, List.mem_inits]

/-- The first names lead through fewer places. -/
theorem ways_subset {names names' : List String} (h : names' <+: names) :
    ways names' ⊆ ways names := by
  intro q hq
  obtain ⟨before, hbefore, hlead⟩ := mem_ways.mp hq
  exact mem_ways.mpr ⟨before, hbefore.trans h, hlead⟩

/-! ### Parents -/

/-- Leaving out the first elements that a filter drops does not matter to it. -/
theorem filter_dropWhile_not {α : Type} (p : α → Bool) (l : List α) :
    (l.dropWhile fun a => !p a).filter p = l.filter p := by
  induction l with
  | nil => rfl
  | cons a as ih => by_cases ha : p a <;> simp [ha, ih]

/-- What follows the last name of a path holds no names. -/
theorem names_trim (p : Path) : p.trim.names = p.names := by
  rw [names, trim, List.filter_reverse, filter_dropWhile_not, ← List.filter_reverse,
    List.reverse_reverse, names]

/-- A path that names something ends, once trimmed, in its last name. -/
theorem exists_segments_trim {p : Path} (h : p.names ≠ []) :
    ∃ before name, p.trim.segments = before ++ [name] ∧ isName name := by
  cases hdrop : p.segments.reverse.dropWhile fun s => !isName s with
  | nil =>
      refine absurd ?_ h
      rw [← names_trim, names, trim, hdrop]
      rfl
  | cons name rest =>
      have hname := List.head?_dropWhile_not (fun s => !isName s) p.segments.reverse
      rw [hdrop] at hname
      exact ⟨rest.reverse, name, by rw [trim, hdrop, List.reverse_cons], by simpa using hname⟩

/-- The path above has all names but the last. -/
theorem names_of_parent? {p above : Path} (h : p.parent? = some above) :
    p.names ≠ [] ∧ above.names = p.names.dropLast := by
  rw [parent?] at h
  by_cases hnames : p.names = []
  · rw [if_pos hnames] at h
    cases h
  · rw [if_neg hnames] at h
    obtain ⟨before, name, htrim, hname⟩ := exists_segments_trim hnames
    obtain rfl := Option.some.inj h
    refine ⟨hnames, ?_⟩
    rw [names_trim, htrim, List.dropLast_concat, ← names_trim p, names, names, htrim,
      List.filter_append, List.filter_cons_of_pos hname, List.filter_nil, List.dropLast_concat]

end Path

/-- Adding text makes a file longer; a directory has no text. -/
def FileNode.append (text : String) : FileNode → FileNode
  | .file old => .file (old ++ text)
  | .directory => .directory

/-- Adding no text changes nothing. -/
@[simp] theorem FileNode.append_empty (n : FileNode) : n.append "" = n := by
  cases n <;> simp [append]

namespace FileTree

open AtomicSet.Path

variable {t t' t'' : FileTree} {p q : Place}

/-! ### What a place holds -/

/-- The empty place is that of a directory. -/
@[simp] theorem node?_root (t : FileTree) : t.node? [] = some .directory := rfl

/-- What is added is in its place, and everything else where it was. -/
theorem node?_add (hp : t.node? p = none) (n : FileNode) (q : Place) :
    (t.add p n).node? q = if q = p then some n else t.node? q := by
  have hroot : p ≠ [] := by
    rintro rfl
    cases hp
  simp only [node?, if_neg hroot, Option.map_eq_none_iff] at hp
  by_cases hq : q = []
  · rw [if_neg (hq ▸ hroot.symm), hq, node?_root, node?_root]
  · simp only [node?, add, if_neg hq, List.find?_append]
    by_cases hqp : q = p
    · subst hqp
      simp [hp]
    · simp [hqp, Ne.symm hqp]

/-- Text is added to the file at the place, and other nodes stay as they are. -/
theorem append_eq (t : FileTree) (p : Place) (text : String) :
    t.append p text = ⟨t.nodes.map fun e => (e.1, if e.1 = p then e.2.append text else e.2)⟩ := by
  rw [append]
  congr 2
  funext e
  obtain ⟨place, old | _⟩ := e
  · by_cases hp : place = p <;> simp [hp, FileNode.append]
  · simp [FileNode.append]

/-- After text is added, the place holds the longer file. -/
theorem node?_append (t : FileTree) (p : Place) (text : String) (q : Place) :
    (t.append p text).node? q =
      (t.node? q).map fun n => if q = p then n.append text else n := by
  by_cases hq : q = []
  · subst hq
    simp [FileNode.append]
  · simp only [append_eq, node?, if_neg hq, List.find?_map, Function.comp_def]
    cases hfind : t.nodes.find? fun e => e.1 = q with
    | none => rfl
    | some e =>
        have hplace : e.1 = q := by simpa using List.find?_some hfind
        simp only [Option.map_some, hplace]

/-! ### Following names -/

/-- Everything that leads to the place, and the place itself, is a directory. -/
def Leads (t : FileTree) (p : Place) : Prop :=
  ∀ q, q <+: p → t.node? q = some .directory

/-- All places that the names lead through are directories, and so is where they lead. -/
def Walked (t : FileTree) (names : List String) : Prop :=
  ∀ q ∈ ways names, t.Leads q

/-- Nothing leads to the empty place but itself. -/
theorem leads_root (t : FileTree) : t.Leads [] := by
  intro q hq
  rw [List.prefix_nil.mp hq, node?_root]

/-- What leads to a place leads to the one above. -/
theorem Leads.dropLast (h : t.Leads p) : t.Leads p.dropLast :=
  fun q hq => h q (hq.trans (List.dropLast_prefix p))

/-- A directory may be entered. -/
theorem Leads.concat (h : t.Leads p) {name : String}
    (hname : t.node? (p ++ [name]) = some .directory) : t.Leads (p ++ [name]) := by
  intro q hq
  rcases List.prefix_concat_iff.mp hq with rfl | hq
  · exact hname
  · exact h q hq

/-- No names lead through the empty place only. -/
theorem walked_nil (t : FileTree) : t.Walked [] := by
  intro q hq
  obtain ⟨names, hnames, rfl⟩ := mem_ways.mp hq
  rw [List.prefix_nil.mp hnames]
  exact t.leads_root

/-- Names that lead to a directory can be followed on to the next one. -/
theorem Walked.concat {names : List String} {name : String} (h : t.Walked names)
    (hlast : t.Leads (lead [] (names ++ [name]))) : t.Walked (names ++ [name]) := by
  intro q hq
  obtain ⟨before, hbefore, rfl⟩ := mem_ways.mp hq
  rcases List.prefix_concat_iff.mp hbefore with rfl | hbefore
  · exact hlast
  · exact h _ (mem_ways.mpr ⟨before, hbefore, rfl⟩)

/-- **Names that can be followed lead where they always lead**, through directories only. -/
theorem walk_eq_ok {names : List String} (hp : t.Leads p) (h : t.walk p names = .ok q) :
    q = lead p names ∧ ∀ names', names' <+: names → t.Leads (lead p names') := by
  induction names generalizing p with
  | nil =>
      obtain rfl := Except.ok.inj h
      refine ⟨rfl, fun names' hnames' => ?_⟩
      rw [List.prefix_nil.mp hnames']
      exact hp
  | cons name names ih =>
      -- Whatever the first name is, it leads to a place from which the others are followed.
      have hstep : ∀ {next : Place}, t.Leads next → t.walk next names = .ok q →
          (∀ names, lead p (name :: names) = lead next names) →
          q = lead p (name :: names) ∧
            ∀ names', names' <+: name :: names → t.Leads (lead p names') := by
        intro next hnext hwalk hlead
        obtain ⟨hq, hall⟩ := ih hnext hwalk
        refine ⟨by rw [hq, hlead], fun names' hnames' => ?_⟩
        rcases List.prefix_cons_iff.mp hnames' with rfl | ⟨rest, rfl, hrest⟩
        · exact hp
        · rw [hlead]
          exact hall rest hrest
      by_cases hup : name = ".."
      · subst hup
        rw [walk, if_pos rfl] at h
        exact hstep hp.dropLast h (lead_cons_up p)
      · rw [walk, if_neg hup] at h
        cases hlong : nameTooLong name with
        | true => simp [hlong] at h
        | false =>
            rw [hlong, if_neg Bool.false_ne_true] at h
            rcases hnode : t.node? (p ++ [name]) with _ | text | _
            · simp [hnode] at h
            · simp [hnode] at h
            · rw [hnode] at h
              exact hstep (hp.concat hnode) h (lead_cons_name p hup)

/-- The same from the directory on that everything is below. -/
theorem walk_root_eq_ok {names : List String} (h : t.walk [] names = .ok q) :
    q = lead [] names ∧ t.Walked names := by
  obtain ⟨hq, hall⟩ := walk_eq_ok t.leads_root h
  refine ⟨hq, fun place hplace => ?_⟩
  obtain ⟨before, hbefore, rfl⟩ := mem_ways.mp hplace
  exact hall before hbefore

/-- A path that leads to a directory leads through directories only. -/
theorem walked_of_isDirectory {p : Path} (h : t.isDirectory p) : t.Walked p.names := by
  rw [isDirectory, directory] at h
  cases hbad : FileError.ofPath? p with
  | some e => simp [hbad] at h
  | none =>
      cases hwalk : t.walk [] p.names with
      | error e => simp [hbad, hwalk] at h
      | ok place => exact (walk_root_eq_ok hwalk).2

/-! ### Creating directories -/

/-- From `t` to `t'` nothing happened but that some of these places, which held nothing, got a
directory. -/
def Paved (t t' : FileTree) (places : List Place) : Prop :=
  ∀ q, t'.node? q = t.node? q ∨
    t.node? q = none ∧ t'.node? q = some .directory ∧ q ∈ places

namespace Paved

variable {places places' : List Place}

/-- Nothing happened. -/
theorem refl (t : FileTree) (places : List Place) : Paved t t places :=
  fun _ => .inl rfl

/-- Some places got a directory, and then others. -/
theorem trans (h : Paved t t' places) (h' : Paved t' t'' places) : Paved t t'' places := by
  intro q
  rcases h' q with heq | ⟨hnone, hsome, hq⟩
  · rw [heq]
    exact h q
  · rcases h q with heq | ⟨-, hdirectory, -⟩
    · exact .inr ⟨heq ▸ hnone, hsome, hq⟩
    · rw [hdirectory] at hnone
      cases hnone

/-- More places may be allowed to get one. -/
theorem mono (h : Paved t t' places) (hsub : places ⊆ places') : Paved t t' places' :=
  fun q => (h q).imp_right fun ⟨hnone, hsome, hq⟩ => ⟨hnone, hsome, hsub hq⟩

/-- What is there stays. -/
theorem node?_eq_some (h : Paved t t' places) {n : FileNode} (hq : t.node? q = some n) :
    t'.node? q = some n := by
  rcases h q with heq | ⟨hnone, -, -⟩
  · rw [heq, hq]
  · rw [hq] at hnone
    cases hnone

/-- Directories stay, so that they lead where they led. -/
theorem leads (h : Paved t t' places) (hp : t.Leads p) : t'.Leads p :=
  fun q hq => h.node?_eq_some (hp q hq)

/-- Names that could be followed can be followed still. -/
theorem walked (h : Paved t t' places) {names : List String} (hnames : t.Walked names) :
    t'.Walked names :=
  fun q hq => h.leads (hnames q hq)

end Paved

/-- Adding a directory to a place that held nothing does not change others. -/
theorem paved_add (hp : t.node? p = none) : t.Paved (t.add p .directory) [p] := by
  intro q
  rw [node?_add hp]
  by_cases hq : q = p
  · rw [if_pos hq, hq]
    exact .inr ⟨hp, rfl, List.mem_singleton_self p⟩
  · rw [if_neg hq]
    exact .inl rfl

/-- A directory that was created has the last name of the path, in the directory to which the others
lead, and there was nothing in its place. -/
theorem exists_of_makeDirectory {p : Path} (h : t.makeDirectory p = .ok t') :
    ∃ before name above, p.names = before ++ [name] ∧ t.walk [] before = .ok above ∧ name ≠ ".." ∧
      t.node? (above ++ [name]) = none ∧ t' = t.add (above ++ [name]) .directory := by
  rw [makeDirectory] at h
  cases hbad : FileError.ofPath? p with
  | some e => simp [hbad] at h
  | none =>
      cases hlast : p.names.getLast? with
      | none => simp [hbad, hlast] at h
      | some name =>
          simp only [hbad, hlast] at h
          obtain ⟨before, hnames⟩ := List.getLast?_eq_some_iff.mp hlast
          rw [hnames, List.dropLast_concat] at h
          cases hwalk : t.walk [] before with
          | error e => simp [hwalk] at h
          | ok above =>
              rw [hwalk] at h
              dsimp only at h
              by_cases hup : name = ".."
              · simp [hup] at h
              cases hlong : nameTooLong name with
              | true => simp [hup, hlong] at h
              | false =>
                  rw [if_neg hup, hlong, if_neg Bool.false_ne_true] at h
                  cases hnode : t.node? (above ++ [name]) with
                  | some n => simp [hnode] at h
                  | none =>
                      rw [hnode] at h
                      exact ⟨before, name, above, hnames, hwalk, hup, hnode,
                        (Except.ok.inj h).symm⟩

/-- Creating one directory adds the place to which the path leads, which held nothing. -/
theorem makeDirectory_eq_ok {p : Path} (h : t.makeDirectory p = .ok t') :
    t.Paved t' (ways p.names) ∧ t'.Walked p.names := by
  obtain ⟨before, name, above, hnames, hwalk, hup, hnone, rfl⟩ := exists_of_makeDirectory h
  obtain ⟨rfl, hwalked⟩ := walk_root_eq_ok hwalk
  have hpaved := paved_add hnone
  have hlead : lead [] (before ++ [name]) = lead [] before ++ [name] := lead_concat [] before hup
  rw [hnames]
  refine ⟨hpaved.mono ?_, (hpaved.walked hwalked).concat ?_⟩
  · rw [← hlead]
    exact List.cons_subset.mpr ⟨mem_ways.mpr ⟨_, List.prefix_rfl, rfl⟩, List.nil_subset _⟩
  · rw [hlead]
    refine (hpaved.leads (hwalked _ (mem_ways.mpr ⟨before, List.prefix_rfl, rfl⟩))).concat ?_
    rw [node?_add hnone, if_pos rfl]

/-- If a directory cannot be created, all is well only if it is there. -/
theorem walked_of_ite {p : Path} {e : FileError}
    (h : (if t.isDirectory p then .ok () else .error e : Except FileError Unit) = .ok ()) :
    t.Walked p.names := by
  by_cases hthere : t.isDirectory p
  · exact walked_of_isDirectory hthere
  · rw [if_neg hthere] at h
    cases h

/-- Creating the directories of a path, from the last one upwards and back. -/
theorem makeDirectoriesWithin_spec {depth : Nat} {p : Path} (hdepth : p.names.length = depth)
    (t : FileTree) :
    t.Paved (makeDirectoriesWithin depth t p).1 (ways p.names) ∧
      ((makeDirectoriesWithin depth t p).2 = .ok () →
        (makeDirectoriesWithin depth t p).1.Walked p.names) := by
  induction depth generalizing t p with
  | zero =>
      rw [List.length_eq_zero_iff] at hdepth
      exact ⟨.refl t _, fun _ => by rw [hdepth]; exact t.walked_nil⟩
  | succ depth ih =>
      rw [makeDirectoriesWithin]
      cases hmake : t.makeDirectory p with
      | ok t' => exact ⟨(makeDirectory_eq_ok hmake).1, fun _ => (makeDirectory_eq_ok hmake).2⟩
      | error e =>
          cases e with
          | notFound =>
              -- Only this error sends for the directories above.
              cases habove : p.parent? with
              | none => exact ⟨.refl t _, fun h => by cases h⟩
              | some above =>
                  obtain ⟨-, hnames⟩ := names_of_parent? habove
                  have hlength : above.names.length = depth := by
                    rw [hnames, List.length_dropLast, hdepth, Nat.add_sub_cancel]
                  have hpaved :=
                    (ih hlength t).1.mono (ways_subset (hnames ▸ List.dropLast_prefix _))
                  dsimp only
                  rcases hup : makeDirectoriesWithin depth t above with ⟨t', e | _⟩
                  · rw [hup] at hpaved
                    exact ⟨hpaved, fun h => by cases h⟩
                  · rw [hup] at hpaved
                    dsimp only
                    cases hagain : t'.makeDirectory p with
                    | ok t'' =>
                        obtain ⟨hpaved', hwalked⟩ := makeDirectory_eq_ok hagain
                        exact ⟨hpaved.trans hpaved', fun _ => hwalked⟩
                    | error e => exact ⟨hpaved, walked_of_ite⟩
          | _ => exact ⟨.refl t _, walked_of_ite⟩

/-- **Creating the directories of a path** adds missing ones among those it leads through. -/
theorem paved_makeDirectories (t : FileTree) (p : Path) :
    t.Paved (t.makeDirectories p).1 (ways p.names) :=
  (makeDirectoriesWithin_spec rfl t).1

/-- If that succeeds, all of these places are directories. -/
theorem walked_makeDirectories {p : Path} (h : (t.makeDirectories p).2 = .ok ()) :
    (t.makeDirectories p).1.Walked p.names :=
  (makeDirectoriesWithin_spec rfl t).2 h

/-! ### Opening files -/

/-- **A file that was opened** is the one the path leads to; it was there, or it is new and holds
what new files hold. -/
theorem openForAppending_eq_ok {p : Path} {fresh : String} {place : Place}
    (h : t.openForAppending p fresh = .ok (t', place)) :
    place = p.place ∧
      ((∃ text, t.node? place = some (.file text)) ∧ t' = t ∨
        t.node? place = none ∧ t' = t.add place (.file fresh)) := by
  rw [openForAppending] at h
  cases hbad : FileError.ofPath? p with
  | some e => simp [hbad] at h
  | none =>
      cases hlast : p.names.getLast? with
      | none => simp [hbad, hlast] at h
      | some name =>
          simp only [hbad, hlast] at h
          obtain ⟨before, hnames⟩ := List.getLast?_eq_some_iff.mp hlast
          rcases hwalk : t.walk [] (if p.endsInDot then p.names else p.names.dropLast) with
            e | above
          · simp [hwalk] at h
          · rw [hwalk] at h
            dsimp only at h
            by_cases hplain : p.endsInDot || p.endsInSlash || name = ".."
            · rw [if_pos hplain] at h
              cases h
            · rw [if_neg hplain] at h
              simp only [Bool.or_eq_true, decide_eq_true_eq, not_or, Bool.not_eq_true] at hplain
              obtain ⟨⟨hdot, -⟩, hup⟩ := hplain
              rw [hdot, if_neg Bool.false_ne_true, hnames, List.dropLast_concat] at hwalk
              obtain ⟨rfl, -⟩ := walk_root_eq_ok hwalk
              have hplace : lead [] before ++ [name] = p.place := by
                rw [Path.place, hnames, lead_concat [] before hup]
              rw [hplace] at h
              cases hlong : nameTooLong name with
              | true => simp [hlong] at h
              | false =>
                  rw [hlong, if_neg Bool.false_ne_true] at h
                  rcases hnode : t.node? p.place with _ | text | _
                  · rw [hnode] at h
                    obtain ⟨rfl, rfl⟩ := Prod.mk.inj (Except.ok.inj h)
                    exact ⟨rfl, .inr ⟨hnode, rfl⟩⟩
                  · rw [hnode] at h
                    obtain ⟨rfl, rfl⟩ := Prod.mk.inj (Except.ok.inj h)
                    exact ⟨rfl, .inl ⟨⟨text, hnode⟩, rfl⟩⟩
                  · rw [hnode] at h
                    cases h

end FileTree

end AtomicSet
