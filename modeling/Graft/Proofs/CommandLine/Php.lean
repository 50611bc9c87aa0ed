/-
What a list of arguments for edits of a class means.

Arguments are taken one by one.  What is known of the ones that were taken is a draft: the file, the edits so far and a
switch.  A draft grows in each of the three by the arguments of one kind, so that it does not matter where the file and
the switch stand among the flags.

* `FlagMeans` — the texts of flags and what each of them asks for;
* `flagEdit_eq_ok_iff`, `accept_flag_eq_ok_iff` — one flag and one argument;
* `foldlM_accept_eq_ok_iff` — arguments in turn;
* `PhpArgs.parse_spec` — which lists mean something, and what.
-/
import Graft.CommandLine.Args
import Graft.Proofs.Project.FileTree
import Graft.Proofs.Text.Search

namespace Graft

open Text

/-! ### Results and lists -/

theorem mapError_eq_ok_iff {ε ε' α : Type} {f : ε → ε'} {x : Except ε α} {a : α} :
    x.mapError f = .ok a ↔ x = .ok a := by
  cases x with
  | error e => simp [Except.mapError]
  | ok b => simp [Except.mapError]

theorem except_map_eq_ok_iff {ε α β : Type} {f : α → β} {x : Except ε α} {b : β} :
    f <$> x = .ok b ↔ ∃ a, x = .ok a ∧ f a = b := by
  cases x with
  | error e => simp
  | ok a => simp

theorem toList_injective {α : Type} {o o' : Option α} (h : o.toList = o'.toList) : o = o' :=
  Option.head?_toList.symm.trans ((congrArg List.head? h).trans Option.head?_toList)

theorem exists_of_forall₂ {α β : Type} {R : α → β → Prop} {l : List α} {l' : List β} (h : List.Forall₂ R l l') {x : α}
    (hx : x ∈ l) : ∃ y ∈ l', R x y := by
  induction h with
  | nil => exact absurd hx List.not_mem_nil
  | @cons x' y' l l' hxy _ ih =>
    rcases List.mem_cons.1 hx with rfl | hx
    · exact ⟨y', List.mem_cons_self, hxy⟩
    · obtain ⟨y, hy, hR⟩ := ih hx
      exact ⟨y, List.mem_cons_of_mem _ hy, hR⟩

theorem exists_forall₂ {α β : Type} {R : α → β → Prop} {l : List α} (h : ∀ x ∈ l, ∃ y, R x y) :
    ∃ l', List.Forall₂ R l l' := by
  induction l with
  | nil => exact ⟨[], .nil⟩
  | cons x l ih =>
    obtain ⟨⟨y, hy⟩, hl⟩ := List.forall_mem_cons.1 h
    obtain ⟨l', hl'⟩ := ih hl
    exact ⟨y :: l', .cons hy hl'⟩

/-! ### Flags -/

/-- The flags whose value is a name, with the edits that are about it. -/
def namedEdits : List (String × (Text → Edit)) :=
  [("--add-trait", .addTrait), ("--remove-trait", .removeTrait), ("--add-interface", .addInterface),
    ("--remove-interface", .removeInterface), ("--add-import", .addImport), ("--remove-import", .removeImport),
    ("--remove-method", .removeMethod)]

/-- The text of a flag with its value asks for an edit, where `read` is what is in the files that hold methods.  The
fields of a value end at its first commas, and the last field may hold more of them. -/
inductive FlagMeans (read : Text → Text) : Text → Edit → Prop
  | named {flag : String} {edit : Text → Edit} (h : (flag, edit) ∈ namedEdits) (name : Text) :
      FlagMeans read (flag.toList ++ '=' :: name) (edit name)
  | method (path : Text) : FlagMeans read ("--add-method".toList ++ '=' :: path) (.addMethod (read path))
  | element {target field : Text} {value : Scalar} (htarget : ',' ∉ target) (hfield : ',' ∉ field)
      (hvalue : Scalar.ofArgument field = .ok value) :
      FlagMeans read ("--add-to-array".toList ++ '=' :: (target ++ ',' :: field)) (.addToArray target none value)
  | entry {target key field : Text} {value : Scalar} (htarget : ',' ∉ target) (hkey : ',' ∉ key)
      (hvalue : Scalar.ofArgument field = .ok value) :
      FlagMeans read ("--add-to-array".toList ++ '=' :: (target ++ ',' :: (key ++ ',' :: field)))
        (.addToArray target (some key) value)
  | removal {target : Text} (htarget : ',' ∉ target) (search : Text) :
      FlagMeans read ("--remove-from-array".toList ++ '=' :: (target ++ ',' :: search)) (.removeFromArray target search)

/-- The edit that is asked for, once files are read. -/
def Request.result (read : Text → Text) : Request → Edit
  | edit e => e
  | method path => .addMethod (read path)

theorem additionOf_eq {target rest : Text} {value : Text} (h : cut? ',' value = some (target, rest)) :
    additionOf value = (Scalar.ofArgument (((cut? ',' rest).map Prod.snd).getD rest)).mapError CommandError.edit >>=
      fun s => .ok (.addToArray target ((cut? ',' rest).map Prod.fst) s) := by
  rw [additionOf, h]
  dsimp only
  cases cut? ',' rest with
  | none => rfl
  | some fields => rfl

/-- A value for an array has two fields, or three when there is a second comma. -/
theorem additionOf_eq_ok_iff {value : Text} {e : Edit} :
    additionOf value = .ok e ↔
      (∃ target field s, value = target ++ ',' :: field ∧ ',' ∉ target ∧ ',' ∉ field ∧ Scalar.ofArgument field = .ok s ∧
          e = .addToArray target none s) ∨
        ∃ target key field s, value = target ++ ',' :: (key ++ ',' :: field) ∧ ',' ∉ target ∧ ',' ∉ key ∧
          Scalar.ofArgument field = .ok s ∧ e = .addToArray target (some key) s := by
  constructor
  · intro h
    cases hcut : cut? ',' value with
    | none =>
      rw [additionOf, hcut] at h
      cases h
    | some fields =>
      obtain ⟨target, rest⟩ := fields
      rw [additionOf_eq hcut, except_bind_eq_ok] at h
      obtain ⟨s, hs, he⟩ := h
      obtain ⟨rfl, htarget⟩ := cut?_eq_some_iff.1 hcut
      rw [mapError_eq_ok_iff] at hs
      cases hrest : cut? ',' rest with
      | none =>
        rw [hrest] at hs he
        exact .inl ⟨target, rest, s, rfl, htarget, cut?_eq_none_iff.1 hrest, hs, (Except.ok.inj he).symm⟩
      | some fields =>
        obtain ⟨key, field⟩ := fields
        rw [hrest] at hs he
        obtain ⟨rfl, hkey⟩ := cut?_eq_some_iff.1 hrest
        exact .inr ⟨target, key, field, s, rfl, htarget, hkey, hs, (Except.ok.inj he).symm⟩
  · rintro (⟨target, field, s, rfl, htarget, hfield, hs, rfl⟩ | ⟨target, key, field, s, rfl, htarget, hkey, hs, rfl⟩)
    · rw [additionOf_eq (cut?_eq_some_iff.2 ⟨rfl, htarget⟩), cut?_eq_none_iff.2 hfield, except_bind_eq_ok]
      exact ⟨s, mapError_eq_ok_iff.2 hs, rfl⟩
    · rw [additionOf_eq (cut?_eq_some_iff.2 ⟨rfl, htarget⟩), cut?_eq_some_iff.2 ⟨rfl, hkey⟩, except_bind_eq_ok]
      exact ⟨s, mapError_eq_ok_iff.2 hs, rfl⟩

theorem removalOf_eq_ok_iff {value : Text} {e : Edit} :
    removalOf value = .ok e ↔
      ∃ target search, value = target ++ ',' :: search ∧ ',' ∉ target ∧ e = .removeFromArray target search := by
  rw [removalOf]
  constructor
  · intro h
    split at h
    · rename_i target search hcut
      obtain ⟨rfl, htarget⟩ := cut?_eq_some_iff.1 hcut
      exact ⟨target, search, rfl, htarget, (Except.ok.inj h).symm⟩
    · cases h
  · rintro ⟨target, search, rfl, htarget, rfl⟩
    rw [cut?_eq_some_iff.2 ⟨rfl, htarget⟩]

theorem requestOf_named {flag : String} {edit : Text → Edit} (h : (flag, edit) ∈ namedEdits) (name : Text) :
    requestOf flag.toList name = .ok (.edit (edit name)) := by
  simp only [namedEdits, List.mem_cons, List.not_mem_nil, or_false, Prod.mk.injEq] at h
  rcases h with ⟨rfl, rfl⟩ | ⟨rfl, rfl⟩ | ⟨rfl, rfl⟩ | ⟨rfl, rfl⟩ | ⟨rfl, rfl⟩ | ⟨rfl, rfl⟩ | ⟨rfl, rfl⟩ <;> rfl

/-- The requests by the names of their flags. -/
theorem requestOf_eq_ok {name value : Text} {r : Request} (h : requestOf name value = .ok r) :
    (∃ flag edit, (flag, edit) ∈ namedEdits ∧ name = flag.toList ∧ r = .edit (edit value)) ∨
      (name = "--add-method".toList ∧ r = .method value) ∨
      (name = "--add-to-array".toList ∧ ∃ e, additionOf value = .ok e ∧ r = .edit e) ∨
      (name = "--remove-from-array".toList ∧ ∃ e, removalOf value = .ok e ∧ r = .edit e) := by
  have hname : ∀ {s : String}, String.ofList name = s → name = s.toList := fun heq => by
    rw [← heq, String.toList_ofList]
  have hnamed : ∀ {flag : String} {edit : Text → Edit}, String.ofList name = flag → (flag, edit) ∈ namedEdits →
      (Except.ok (.edit (edit value)) : Except CommandError Request) = .ok r →
      ∃ flag edit, (flag, edit) ∈ namedEdits ∧ name = flag.toList ∧ r = .edit (edit value) := by
    intro flag edit hflag hmem hr
    exact ⟨flag, edit, hmem, hname hflag, (Except.ok.inj hr).symm⟩
  rw [requestOf] at h
  split at h
  · exact .inl (hnamed ‹_› (by simp [namedEdits]) h)
  · exact .inl (hnamed ‹_› (by simp [namedEdits]) h)
  · exact .inl (hnamed ‹_› (by simp [namedEdits]) h)
  · exact .inl (hnamed ‹_› (by simp [namedEdits]) h)
  · exact .inl (hnamed ‹_› (by simp [namedEdits]) h)
  · exact .inl (hnamed ‹_› (by simp [namedEdits]) h)
  · exact .inr (.inl ⟨hname ‹_›, (Except.ok.inj h).symm⟩)
  · exact .inl (hnamed ‹_› (by simp [namedEdits]) h)
  · obtain ⟨e, hread, hr⟩ := except_map_eq_ok_iff.1 h
    exact .inr (.inr (.inl ⟨hname ‹_›, e, hread, hr.symm⟩))
  · obtain ⟨e, hread, hr⟩ := except_map_eq_ok_iff.1 h
    exact .inr (.inr (.inr ⟨hname ‹_›, e, hread, hr.symm⟩))
  · cases h

/-- What a flag asks for, from the text before the first equals sign and the text behind it. -/
theorem flagMeans_iff {read : Text → Text} {t : Text} {e : Edit} :
    FlagMeans read t e ↔
      ∃ name value r, cut? '=' t = some (name, value) ∧ requestOf name value = .ok r ∧ e = r.result read := by
  constructor
  · intro h
    cases h with
    | @named flag edit h name =>
      have hflag : '=' ∉ flag.toList := by
        simp only [namedEdits, List.mem_cons, List.not_mem_nil, or_false, Prod.mk.injEq] at h
        rcases h with ⟨rfl, -⟩ | ⟨rfl, -⟩ | ⟨rfl, -⟩ | ⟨rfl, -⟩ | ⟨rfl, -⟩ | ⟨rfl, -⟩ | ⟨rfl, -⟩ <;> decide
      exact ⟨flag.toList, name, _, cut?_eq_some_iff.2 ⟨rfl, hflag⟩, requestOf_named h name, rfl⟩
    | method path => exact ⟨_, path, _, cut?_eq_some_iff.2 ⟨rfl, by decide⟩, rfl, rfl⟩
    | @element target field value htarget hfield hvalue =>
      refine ⟨_, _, .edit _, cut?_eq_some_iff.2 ⟨rfl, by decide⟩, ?_, rfl⟩
      have hread := additionOf_eq_ok_iff.2 (.inl ⟨target, field, value, rfl, htarget, hfield, hvalue, rfl⟩)
      show Request.edit <$> additionOf _ = _
      rw [hread]
      rfl
    | @entry target key field value htarget hkey hvalue =>
      refine ⟨_, _, .edit _, cut?_eq_some_iff.2 ⟨rfl, by decide⟩, ?_, rfl⟩
      have hread := additionOf_eq_ok_iff.2 (.inr ⟨target, key, field, value, rfl, htarget, hkey, hvalue, rfl⟩)
      show Request.edit <$> additionOf _ = _
      rw [hread]
      rfl
    | @removal target htarget search =>
      refine ⟨_, _, .edit _, cut?_eq_some_iff.2 ⟨rfl, by decide⟩, ?_, rfl⟩
      have hread := removalOf_eq_ok_iff.2 ⟨target, search, rfl, htarget, rfl⟩
      show Request.edit <$> removalOf _ = _
      rw [hread]
      rfl
  · rintro ⟨name, value, r, hcut, hrequest, rfl⟩
    obtain ⟨rfl, -⟩ := cut?_eq_some_iff.1 hcut
    rcases requestOf_eq_ok hrequest with ⟨flag, edit, hmem, rfl, rfl⟩ | ⟨rfl, rfl⟩ | ⟨rfl, e, hread, rfl⟩ |
      ⟨rfl, e, hread, rfl⟩
    · exact .named hmem value
    · exact .method value
    · rcases additionOf_eq_ok_iff.1 hread with ⟨target, field, s, rfl, htarget, hfield, hs, rfl⟩ |
        ⟨target, key, field, s, rfl, htarget, hkey, hs, rfl⟩
      · exact .element htarget hfield hs
      · exact .entry htarget hkey hs
    · obtain ⟨target, search, rfl, htarget, rfl⟩ := removalOf_eq_ok_iff.1 hread
      exact .removal htarget search

/-! ### Arguments -/

/-- The switch that only shows what would be written. -/
def isSwitch (t : Text) : Bool := t == "--dry-run".toList

/-- The argument is a file: it does not begin with a dash. -/
def isFile (t : Text) : Bool := !t.startsWith ['-']

/-- The argument begins with a dash and is not the switch. -/
def isFlag (t : Text) : Bool := t.startsWith ['-'] && !isSwitch t

/-- A command over a tree of files. -/
abbrev Command (α : Type) := ExceptT CommandError (StateM FileTree) α

section
variable {read : Text → Text} {tree tree' : FileTree} {name value t : Text} {e : Edit} {d d' : PhpDraft}

theorem flagEdit_run {r : Request} (hrequest : requestOf name value = .ok r)
    (hread : ∀ path, r = .method path → tree.readText path = .ok (read path)) :
    (flagEdit name value : Command Edit).run.run tree = (.ok (r.result read), tree) := by
  rw [flagEdit, hrequest]
  cases r with
  | edit e => rfl
  | method path =>
    have hcode : (readInput path : Command Text).run.run tree =
        ((tree.readText path).mapError (CommandError.read path), tree) := rfl
    rw [hread path rfl] at hcode
    exact FileAction.bind_eq_ok.2 ⟨read path, tree, hcode, rfl⟩

/-- What a flag asks for, where the files that it names can be read. -/
theorem flagEdit_eq_ok_iff
    (hread : ∀ path, requestOf name value = .ok (.method path) → tree.readText path = .ok (read path)) :
    (flagEdit name value : Command Edit).run.run tree = (.ok e, tree') ↔
      tree' = tree ∧ ∃ r, requestOf name value = .ok r ∧ e = r.result read := by
  constructor
  · intro h
    cases hrequest : requestOf name value with
    | error err =>
      rw [flagEdit, hrequest] at h
      cases h
    | ok r =>
      have hrun := flagEdit_run hrequest fun path hr => hread path (hr ▸ hrequest)
      cases h.symm.trans hrun
      exact ⟨rfl, r, rfl, rfl⟩
  · rintro ⟨rfl, r, hrequest, rfl⟩
    exact flagEdit_run hrequest fun path hr => hread path (hr ▸ hrequest)

theorem FlagMeans.startsWith (h : FlagMeans read t e) : t.startsWith ['-', '-'] = true := by
  have hliteral : ∀ {flag : Text} (u : Text), ['-', '-'] <+: flag → (flag ++ u).startsWith ['-', '-'] = true :=
    fun u hflag => startsWith_iff.2 (hflag.trans (List.prefix_append _ u))
  cases h with
  | @named flag edit h name =>
    refine hliteral _ ?_
    simp only [namedEdits, List.mem_cons, List.not_mem_nil, or_false, Prod.mk.injEq] at h
    rcases h with ⟨rfl, -⟩ | ⟨rfl, -⟩ | ⟨rfl, -⟩ | ⟨rfl, -⟩ | ⟨rfl, -⟩ | ⟨rfl, -⟩ | ⟨rfl, -⟩ <;> decide
  | method path => exact hliteral _ (by decide)
  | element htarget hfield hvalue => exact hliteral _ (by decide)
  | entry htarget hkey hvalue => exact hliteral _ (by decide)
  | removal htarget search => exact hliteral _ (by decide)

/-- What asks for an edit is a flag. -/
theorem FlagMeans.isFlag (h : FlagMeans read t e) : isFlag t = true := by
  have hdash : t.startsWith ['-'] = true :=
    startsWith_iff.2 ((List.prefix_append ['-'] ['-']).trans (startsWith_iff.1 h.startsWith))
  have hswitch : isSwitch t = false := by
    rw [isSwitch, beq_eq_false_iff_ne]
    rintro rfl
    obtain ⟨name, value, r, hcut, -⟩ := flagMeans_iff.1 h
    have hnone : cut? '=' "--dry-run".toList = none := by decide
    rw [hnone] at hcut
    cases hcut
  rw [Graft.isFlag, hdash, hswitch]
  rfl

/-- What a flag with a value asks for. -/
theorem FlagMeans.iff_of_cut (hcut : cut? '=' t = some (name, value)) :
    FlagMeans read t e ↔ ∃ r, requestOf name value = .ok r ∧ e = r.result read := by
  rw [flagMeans_iff]
  constructor
  · rintro ⟨name', value', r, hcut', hr, he⟩
    rw [hcut] at hcut'
    cases hcut'
    exact ⟨r, hr, he⟩
  · rintro ⟨r, hr, he⟩
    exact ⟨name, value, r, hcut, hr, he⟩

/-- The file that a flag names is one of those that can be read. -/
theorem readText_of_requestOf (hcut : cut? '=' t = some (name, value))
    (hread : ∀ path, t = "--add-method=".toList ++ path → tree.readText path = .ok (read path)) (path : Text)
    (hrequest : requestOf name value = .ok (.method path)) : tree.readText path = .ok (read path) := by
  rcases requestOf_eq_ok hrequest with ⟨flag, edit, -, -, hr⟩ | ⟨rfl, hr⟩ | ⟨-, e, -, hr⟩ | ⟨-, e, -, hr⟩
  · cases hr
  · cases hr
    exact hread _ (cut?_eq_some hcut)
  · cases hr
  · cases hr

theorem accept_unknown (hkind : Argument.ofText t = .unknown t) :
    (d.accept t : Command PhpDraft).run.run tree ≠ (.ok d', tree') := by
  intro h
  rw [PhpDraft.accept, hkind] at h
  cases h

theorem accept_named_eq_ok_iff (hkind : Argument.ofText t = .flag name value)
    (hread : ∀ path, requestOf name value = .ok (.method path) → tree.readText path = .ok (read path)) :
    (d.accept t : Command PhpDraft).run.run tree = (.ok d', tree') ↔
      tree' = tree ∧ ∃ r, requestOf name value = .ok r ∧ d' = { d with edits := d.edits ++ [r.result read] } := by
  rw [PhpDraft.accept, hkind]
  show (flagEdit name value >>= fun e => pure { d with edits := d.edits ++ [e] } : Command _).run.run tree = _ ↔ _
  rw [FileAction.bind_eq_ok]
  constructor
  · rintro ⟨e, tree₁, hflag, hd⟩
    cases hd
    obtain ⟨rfl, r, hr, rfl⟩ := (flagEdit_eq_ok_iff hread).1 hflag
    exact ⟨rfl, r, hr, rfl⟩
  · rintro ⟨rfl, r, hr, rfl⟩
    exact ⟨r.result read, tree', (flagEdit_eq_ok_iff hread).2 ⟨rfl, r, hr, rfl⟩, rfl⟩

/-- A flag puts its edit behind the others. -/
theorem accept_flag_eq_ok_iff (ht : isFlag t = true)
    (hread : ∀ path, t = "--add-method=".toList ++ path → tree.readText path = .ok (read path)) :
    (d.accept t : Command PhpDraft).run.run tree = (.ok d', tree') ↔
      tree' = tree ∧ ∃ e, FlagMeans read t e ∧ d' = { d with edits := d.edits ++ [e] } := by
  rw [isFlag, Bool.and_eq_true, Bool.not_eq_true', isSwitch, beq_eq_false_iff_ne] at ht
  by_cases hdashes : t.startsWith ['-', '-'] = true
  · cases hcut : cut? '=' t with
    | none =>
      have hkind : Argument.ofText t = .unknown t := by rw [Argument.ofText, if_neg ht.2, if_pos hdashes, hcut]
      refine iff_of_false (accept_unknown hkind) ?_
      rintro ⟨-, e, he, -⟩
      obtain ⟨name, value, r, hcut', -⟩ := flagMeans_iff.1 he
      rw [hcut] at hcut'
      cases hcut'
    | some parts =>
      obtain ⟨name, value⟩ := parts
      have hkind : Argument.ofText t = .flag name value := by rw [Argument.ofText, if_neg ht.2, if_pos hdashes, hcut]
      rw [accept_named_eq_ok_iff hkind (readText_of_requestOf hcut hread)]
      refine and_congr_right fun _ => ?_
      constructor
      · rintro ⟨r, hr, rfl⟩
        exact ⟨r.result read, (FlagMeans.iff_of_cut hcut).2 ⟨r, hr, rfl⟩, rfl⟩
      · rintro ⟨e, he, rfl⟩
        obtain ⟨r, hr, rfl⟩ := (FlagMeans.iff_of_cut hcut).1 he
        exact ⟨r, hr, rfl⟩
  · -- An argument with one dash is no flag with a value.
    have hkind : Argument.ofText t = .unknown t := by rw [Argument.ofText, if_neg ht.2, if_neg hdashes, if_pos ht.1]
    refine iff_of_false (accept_unknown hkind) ?_
    rintro ⟨-, e, he, -⟩
    exact hdashes he.startsWith

/-- A file must be the first one. -/
theorem accept_file_eq_ok_iff (ht : isFile t = true) :
    (d.accept t : Command PhpDraft).run.run tree = (.ok d', tree') ↔
      tree' = tree ∧ d.file = none ∧ d' = { d with file := some t } := by
  have hdash : ¬ t.startsWith ['-'] = true := by simpa [isFile] using ht
  have hswitch : t ≠ "--dry-run".toList := by
    rintro rfl
    exact hdash (by decide)
  have hdashes : ¬ t.startsWith ['-', '-'] = true := fun h =>
    hdash (startsWith_iff.2 ((List.prefix_append ['-'] ['-']).trans (startsWith_iff.1 h)))
  rw [PhpDraft.accept, Argument.ofText, if_neg hswitch, if_neg hdashes, if_neg hdash]
  dsimp only
  cases hfile : d.file with
  | none =>
    constructor
    · intro h
      cases h
      exact ⟨rfl, rfl, rfl⟩
    · rintro ⟨rfl, -, rfl⟩
      rfl
  | some path =>
    constructor
    · intro h
      cases h
    · rintro ⟨-, h, -⟩
      cases h

theorem accept_switch_eq_ok_iff (ht : isSwitch t = true) :
    (d.accept t : Command PhpDraft).run.run tree = (.ok d', tree') ↔ tree' = tree ∧ d' = { d with dryRun := true } := by
  rw [PhpDraft.accept, Argument.ofText, if_pos (eq_of_beq ht)]
  constructor
  · intro h
    cases h
    exact ⟨rfl, rfl⟩
  · rintro ⟨rfl, rfl⟩
    rfl

end

/-! ### Arguments in turn -/

/-- What arguments make of a draft, by their kinds. -/
structure Taken (read : Text → Text) (args : List Text) (d d' : PhpDraft) : Prop where
  file : d'.file.toList = d.file.toList ++ args.filter isFile
  edits : ∃ es, List.Forall₂ (FlagMeans read) (args.filter isFlag) es ∧ d'.edits = d.edits ++ es
  dryRun : d'.dryRun = (d.dryRun || args.any isSwitch)

section
variable {read : Text → Text} {args : List Text} {t : Text} {d d' : PhpDraft}

/-- Every argument is of one of the kinds. -/
theorem kinds_cases (t : Text) :
    (isSwitch t = true ∧ isFlag t = false ∧ isFile t = false) ∨
      (isSwitch t = false ∧ isFlag t = true ∧ isFile t = false) ∨
      (isSwitch t = false ∧ isFlag t = false ∧ isFile t = true) := by
  rw [isFlag, isFile]
  cases hswitch : isSwitch t with
  | true =>
    obtain rfl : t = "--dry-run".toList := eq_of_beq hswitch
    exact .inl ⟨rfl, by decide, by decide⟩
  | false =>
    cases t.startsWith ['-'] with
    | true => exact .inr (.inl ⟨rfl, rfl, rfl⟩)
    | false => exact .inr (.inr ⟨rfl, rfl, rfl⟩)

theorem taken_nil_iff : Taken read [] d d' ↔ d' = d := by
  constructor
  · rintro ⟨hfile, ⟨es, hes, hedits⟩, hdry⟩
    cases hes
    have hfile' : d'.file = d.file := toList_injective (hfile.trans (List.append_nil _))
    have hedits' : d'.edits = d.edits := hedits.trans (List.append_nil _)
    have hdry' : d'.dryRun = d.dryRun := hdry.trans (Bool.or_false _)
    cases d
    cases d'
    simp_all
  · rintro rfl
    exact ⟨(List.append_nil _).symm, ⟨[], .nil, (List.append_nil _).symm⟩, (Bool.or_false _).symm⟩

theorem taken_switch_iff (ht : isSwitch t = true) (hflag : isFlag t = false) (hfile : isFile t = false) :
    Taken read (t :: args) d d' ↔ Taken read args { d with dryRun := true } d' := by
  have hany : (d.dryRun || (t :: args).any isSwitch) = (true || args.any isSwitch) := by simp [ht]
  constructor
  · rintro ⟨hfiles, hflags, hdry⟩
    rw [List.filter_cons_of_neg (by simp [hfile])] at hfiles
    rw [List.filter_cons_of_neg (by simp [hflag])] at hflags
    exact ⟨hfiles, hflags, hdry.trans hany⟩
  · rintro ⟨hfiles, hflags, hdry⟩
    refine ⟨?_, ?_, hdry.trans hany.symm⟩
    · rwa [List.filter_cons_of_neg (by simp [hfile])]
    · rwa [List.filter_cons_of_neg (by simp [hflag])]

theorem taken_flag_iff (hswitch : isSwitch t = false) (ht : isFlag t = true) (hfile : isFile t = false) :
    Taken read (t :: args) d d' ↔ ∃ e, FlagMeans read t e ∧ Taken read args { d with edits := d.edits ++ [e] } d' := by
  have hany : (t :: args).any isSwitch = args.any isSwitch := by simp [hswitch]
  constructor
  · rintro ⟨hfiles, ⟨es, hes, hedits⟩, hdry⟩
    rw [List.filter_cons_of_neg (by simp [hfile])] at hfiles
    rw [List.filter_cons_of_pos ht] at hes
    obtain ⟨e, es', he, hes', rfl⟩ := List.forall₂_cons_left_iff.1 hes
    exact ⟨e, he, hfiles, ⟨es', hes', by rw [hedits, List.append_assoc, List.singleton_append]⟩, by rw [hdry, hany]⟩
  · rintro ⟨e, he, hfiles, ⟨es, hes, hedits⟩, hdry⟩
    refine ⟨?_, ⟨e :: es, ?_, ?_⟩, ?_⟩
    · rwa [List.filter_cons_of_neg (by simp [hfile])]
    · rw [List.filter_cons_of_pos ht]
      exact .cons he hes
    · rw [hedits, List.append_assoc, List.singleton_append]
    · rw [hdry, hany]

theorem taken_file_iff (hswitch : isSwitch t = false) (hflag : isFlag t = false) (ht : isFile t = true) :
    Taken read (t :: args) d d' ↔ d.file = none ∧ Taken read args { d with file := some t } d' := by
  have hany : (t :: args).any isSwitch = args.any isSwitch := by simp [hswitch]
  constructor
  · rintro ⟨hfiles, hflags, hdry⟩
    rw [List.filter_cons_of_pos ht] at hfiles
    rw [List.filter_cons_of_neg (by simp [hflag])] at hflags
    have hnone : d.file = none := by
      -- A second file would be one more than a draft holds.
      cases hd : d.file with
      | none => rfl
      | some path =>
        have hlength := congrArg List.length hfiles
        have hle : d'.file.toList.length ≤ 1 := by cases d'.file <;> simp
        rw [hd, List.length_append, List.length_cons] at hlength
        simp only [Option.toList_some, List.length_singleton] at hlength
        omega
    refine ⟨hnone, ?_, hflags, by rw [hdry, hany]⟩
    rw [hfiles, hnone]
    rfl
  · rintro ⟨hnone, hfiles, hflags, hdry⟩
    refine ⟨?_, ?_, by rw [hdry, hany]⟩
    · rw [hfiles, List.filter_cons_of_pos ht, hnone]
      rfl
    · rwa [List.filter_cons_of_neg (by simp [hflag])]

/-- Taking arguments in turn comes to taking those of each kind. -/
theorem foldlM_accept_eq_ok_iff {tree tree' : FileTree}
    (hread : ∀ path, "--add-method=".toList ++ path ∈ args → tree.readText path = .ok (read path)) :
    (args.foldlM PhpDraft.accept d : Command PhpDraft).run.run tree = (.ok d', tree') ↔
      tree' = tree ∧ Taken read args d d' := by
  induction args generalizing d with
  | nil =>
    rw [taken_nil_iff]
    constructor
    · intro h
      cases h
      exact ⟨rfl, rfl⟩
    · rintro ⟨rfl, rfl⟩
      rfl
  | cons t args ih =>
    have ih' := fun d => ih (d := d) fun path hpath => hread path (List.mem_cons_of_mem t hpath)
    -- The tree that the first argument leaves is the one it found.
    have hstep : ∀ {P : PhpDraft → Prop},
        (∀ {d₁ tree₁}, (d.accept t : Command _).run.run tree = (.ok d₁, tree₁) ↔ tree₁ = tree ∧ P d₁) →
        (((t :: args).foldlM PhpDraft.accept d : Command _).run.run tree = (.ok d', tree') ↔
          tree' = tree ∧ ∃ d₁, P d₁ ∧ Taken read args d₁ d') := by
      intro P hP
      rw [List.foldlM_cons, FileAction.bind_eq_ok]
      constructor
      · rintro ⟨d₁, tree₁, hfirst, hrest⟩
        obtain ⟨rfl, hd₁⟩ := hP.1 hfirst
        obtain ⟨rfl, htaken⟩ := (ih' d₁).1 hrest
        exact ⟨rfl, d₁, hd₁, htaken⟩
      · rintro ⟨rfl, d₁, hd₁, htaken⟩
        exact ⟨d₁, tree', hP.2 ⟨rfl, hd₁⟩, (ih' d₁).2 ⟨rfl, htaken⟩⟩
    rcases kinds_cases t with ⟨hswitch, hflag, hfile⟩ | ⟨hswitch, hflag, hfile⟩ | ⟨hswitch, hflag, hfile⟩
    · rw [hstep (accept_switch_eq_ok_iff hswitch), taken_switch_iff hswitch hflag hfile]
      simp only [exists_eq_left]
    · rw [hstep (accept_flag_eq_ok_iff hflag fun path ht => hread path (ht ▸ List.mem_cons_self)),
        taken_flag_iff hswitch hflag hfile]
      constructor
      · rintro ⟨htree, d₁, ⟨e, he, rfl⟩, htaken⟩
        exact ⟨htree, e, he, htaken⟩
      · rintro ⟨htree, e, he, htaken⟩
        exact ⟨htree, _, ⟨e, he, rfl⟩, htaken⟩
    · rw [hstep (accept_file_eq_ok_iff hfile), taken_file_iff hswitch hflag hfile]
      simp only [and_assoc, exists_and_left, exists_eq_left]

theorem any_isSwitch_iff : args.any isSwitch = true ↔ "--dry-run".toList ∈ args := by
  rw [List.any_eq_true]
  constructor
  · rintro ⟨t, ht, hswitch⟩
    rwa [← eq_of_beq hswitch]
  · intro h
    exact ⟨_, h, beq_self_eq_true _⟩

theorem PhpDraft.finish_eq_ok_iff {a : PhpArgs} :
    d.finish = .ok a ↔ d.file = some a.file ∧ d.edits = a.edits ∧ a.edits ≠ [] ∧ d.dryRun = a.dryRun := by
  rw [PhpDraft.finish]
  constructor
  · intro h
    split at h
    · cases h
    · rename_i file hfile
      split at h
      · cases h
      · rename_i hne
        cases h
        exact ⟨hfile, rfl, fun hnil => hne (List.isEmpty_iff.2 hnil), rfl⟩
  · rintro ⟨hfile, hedits, hne, hdry⟩
    have hsome : d.edits.isEmpty = false := by
      rw [hedits]
      exact List.isEmpty_eq_false_iff.2 hne
    rw [hfile]
    dsimp only
    rw [hsome, hedits, hdry]
    rfl

theorem PhpArgs.finish_run {tree tree' : FileTree} {a : PhpArgs} :
    (match d.finish with
      | .ok a => pure a
      | .error e => throw e : Command PhpArgs).run.run tree = (.ok a, tree') ↔ tree' = tree ∧ d.finish = .ok a := by
  cases d.finish with
  | error e =>
    constructor
    · intro h
      cases h
    · rintro ⟨-, h⟩
      cases h
  | ok a' =>
    constructor
    · intro h
      cases h
      exact ⟨rfl, rfl⟩
    · rintro ⟨rfl, h⟩
      cases h
      rfl

/-- A list of arguments means something when there is one file, each flag asks for an edit, and there is a flag. -/
theorem PhpArgs.parse_eq_ok_iff {tree tree' : FileTree} {a : PhpArgs}
    (hread : ∀ path, "--add-method=".toList ++ path ∈ args → tree.readText path = .ok (read path)) :
    (PhpArgs.parse args : Command PhpArgs).run.run tree = (.ok a, tree') ↔
      tree' = tree ∧ args.filter isFile = [a.file] ∧ List.Forall₂ (FlagMeans read) (args.filter isFlag) a.edits ∧
        a.edits ≠ [] ∧ a.dryRun = args.any isSwitch := by
  rw [PhpArgs.parse, FileAction.bind_eq_ok]
  constructor
  · rintro ⟨d, tree₁, hfold, hrun⟩
    obtain ⟨rfl, hfile, ⟨es, hes, hedits⟩, hdry⟩ := (foldlM_accept_eq_ok_iff hread).1 hfold
    obtain ⟨rfl, hfinish⟩ := PhpArgs.finish_run.1 hrun
    obtain ⟨hsome, hedits', hne, hdry'⟩ := PhpDraft.finish_eq_ok_iff.1 hfinish
    rw [hsome] at hfile
    obtain rfl : es = a.edits := hedits.symm.trans hedits'
    exact ⟨rfl, hfile.symm, hes, hne, hdry'.symm.trans hdry⟩
  · rintro ⟨rfl, hfile, hflags, hne, hdry⟩
    refine ⟨⟨some a.file, a.edits, a.dryRun⟩, tree', (foldlM_accept_eq_ok_iff hread).2 ⟨rfl, ?_⟩, ?_⟩
    · exact ⟨hfile.symm, ⟨a.edits, hflags, rfl⟩, hdry⟩
    · exact PhpArgs.finish_run.2 ⟨rfl, PhpDraft.finish_eq_ok_iff.2 ⟨rfl, rfl, hne, rfl⟩⟩

/-- The list means something when there is one file, all others are the switch or flags that ask for an edit, and there
is such a flag. -/
theorem PhpArgs.exists_parse_iff {tree : FileTree}
    (hread : ∀ path, "--add-method=".toList ++ path ∈ args → tree.readText path = .ok (read path)) :
    (∃ a tree', (PhpArgs.parse args : Command PhpArgs).run.run tree = (.ok a, tree')) ↔
      (∃ file, args.filter isFile = [file]) ∧
        (∀ t ∈ args, isFile t = false → t = "--dry-run".toList ∨ ∃ e, FlagMeans read t e) ∧
        ∃ t ∈ args, ∃ e, FlagMeans read t e := by
  constructor
  · rintro ⟨a, tree', hparse⟩
    obtain ⟨-, hfile, hflags, hne, -⟩ := (parse_eq_ok_iff hread).1 hparse
    refine ⟨⟨a.file, hfile⟩, ?_, ?_⟩
    · intro t ht hnot
      rcases kinds_cases t with ⟨hswitch, -, -⟩ | ⟨-, hflag, -⟩ | ⟨-, -, hfile'⟩
      · exact .inl (eq_of_beq hswitch)
      · obtain ⟨e, -, he⟩ := exists_of_forall₂ hflags (List.mem_filter.2 ⟨ht, hflag⟩)
        exact .inr ⟨e, he⟩
      · rw [hnot] at hfile'
        cases hfile'
    · obtain ⟨e, he⟩ := List.exists_mem_of_ne_nil _ hne
      obtain ⟨t, ht, hmeans⟩ := exists_of_forall₂ hflags.flip he
      exact ⟨t, (List.mem_filter.1 ht).1, e, hmeans⟩
  · rintro ⟨⟨file, hfile⟩, hdashed, t, ht, e, he⟩
    have hmeans : ∀ t ∈ args.filter isFlag, ∃ e, FlagMeans read t e := by
      intro t ht
      obtain ⟨ht, hflag⟩ := List.mem_filter.1 ht
      rcases kinds_cases t with ⟨-, hnot, -⟩ | ⟨hswitch, -, hnot⟩ | ⟨-, hnot, -⟩
      · rw [hflag] at hnot
        cases hnot
      · exact (hdashed t ht hnot).resolve_left (beq_eq_false_iff_ne.1 hswitch)
      · rw [hflag] at hnot
        cases hnot
    obtain ⟨es, hes⟩ := exists_forall₂ hmeans
    have hne : es ≠ [] := by
      rintro rfl
      obtain ⟨e, hmem, -⟩ := exists_of_forall₂ hes (List.mem_filter.2 ⟨ht, he.isFlag⟩)
      exact List.not_mem_nil hmem
    exact ⟨⟨file, es, args.any isSwitch⟩, tree, (parse_eq_ok_iff hread).2 ⟨rfl, hfile, hes, hne, rfl⟩⟩

/-- The files of snippets that a list names are those that its flags name. -/
theorem readText_of_filter {args' : List Text} {tree : FileTree}
    (hread : ∀ path, "--add-method=".toList ++ path ∈ args → tree.readText path = .ok (read path))
    (hflags : args'.filter isFlag = args.filter isFlag) :
    ∀ path, "--add-method=".toList ++ path ∈ args' → tree.readText path = .ok (read path) := by
  intro path hpath
  have hmeans : FlagMeans read ("--add-method=".toList ++ path) (.addMethod (read path)) := .method path
  have hmem : "--add-method=".toList ++ path ∈ args.filter isFlag := by
    rw [← hflags, List.mem_filter]
    exact ⟨hpath, hmeans.isFlag⟩
  exact hread path (List.mem_filter.1 hmem).1

/-- Which lists of arguments mean something, and what.  There is one file, every other argument is the switch or a flag
that asks for an edit, and there is such a flag.  The edits are those of the flags in their order, whatever stands
between them; a list with the same file and the same flags, that has the switch as well, means the same. -/
theorem PhpArgs.parse_spec {read : Text → Text} {args : List Text} {tree : FileTree}
    (hread : ∀ path, "--add-method=".toList ++ path ∈ args → tree.readText path = .ok (read path)) :
    ((∃ a tree', (PhpArgs.parse args : Command PhpArgs).run.run tree = (.ok a, tree')) ↔
        (∃ file, args.filter isFile = [file]) ∧
          (∀ t ∈ args, isFile t = false → t = "--dry-run".toList ∨ ∃ e, FlagMeans read t e) ∧
          ∃ t ∈ args, ∃ e, FlagMeans read t e) ∧
      ∀ a tree', (PhpArgs.parse args : Command PhpArgs).run.run tree = (.ok a, tree') →
        tree' = tree ∧ args.filter isFile = [a.file] ∧ List.Forall₂ (FlagMeans read) (args.filter isFlag) a.edits ∧
          (a.dryRun = true ↔ "--dry-run".toList ∈ args) ∧
          ∀ args', args'.filter isFile = args.filter isFile → args'.filter isFlag = args.filter isFlag →
            ("--dry-run".toList ∈ args' ↔ "--dry-run".toList ∈ args) →
            (PhpArgs.parse args' : Command PhpArgs).run.run tree = (.ok a, tree) := by
  refine ⟨exists_parse_iff hread, fun a tree' hparse => ?_⟩
  obtain ⟨rfl, hfile, hflags, hne, hdry⟩ := (parse_eq_ok_iff hread).1 hparse
  refine ⟨rfl, hfile, hflags, by rw [hdry, any_isSwitch_iff], ?_⟩
  intro args' hfile' hflags' hdry'
  refine (parse_eq_ok_iff (readText_of_filter hread hflags')).2 ⟨rfl, hfile'.trans hfile, hflags' ▸ hflags, hne, ?_⟩
  rw [hdry, Bool.eq_iff_iff, any_isSwitch_iff, any_isSwitch_iff, hdry']

/-- A file and a switch among flags, one of which names a file and one of which has three commas. -/
theorem PhpArgs.parse_spec_mixed :
    let code := "function a() {}".toList
    let tree : FileTree := [(["m".toList], .file (.text code) false)]
    let flags := ["--add-method=m".toList, "--add-to-array=t,k,a,b".toList]
    ∃ a, (PhpArgs.parse ("--dry-run".toList :: "f".toList :: flags) : Command PhpArgs).run.run tree = (.ok a, tree) ∧
      (PhpArgs.parse (flags ++ ["f".toList, "--dry-run".toList, "--dry-run".toList]) : Command PhpArgs).run.run tree =
        (.ok a, tree) ∧ a.file = "f".toList ∧ a.dryRun = true := by
  intro code tree flags
  have hread : ∀ path, "--add-method=".toList ++ path ∈ "--dry-run".toList :: "f".toList :: flags →
      tree.readText path = .ok ((fun _ => code) path) := by
    intro path hpath
    have hstrip := strip?_append "--add-method=".toList path
    generalize "--add-method=".toList ++ path = t at hpath hstrip
    simp only [flags, List.mem_cons, List.not_mem_nil, or_false] at hpath
    rcases hpath with rfl | rfl | rfl | rfl
    · cases hstrip
    · cases hstrip
    · cases hstrip
      rfl
    · cases hstrip
  obtain ⟨hiff, hmeans⟩ := PhpArgs.parse_spec hread
  have hmethod : FlagMeans (fun _ => code) "--add-method=m".toList (.addMethod code) := .method "m".toList
  have htarget : ',' ∉ "t".toList := by decide
  have hkey : ',' ∉ "k".toList := by decide
  have hentry : FlagMeans (fun _ => code) "--add-to-array=t,k,a,b".toList
      (.addToArray "t".toList (some "k".toList) (.string "a,b".toList)) := .entry htarget hkey rfl
  have hdashed : ∀ t ∈ "--dry-run".toList :: "f".toList :: flags, isFile t = false →
      t = "--dry-run".toList ∨ ∃ e, FlagMeans (fun _ => code) t e := by
    intro t ht hdash
    simp only [flags, List.mem_cons, List.not_mem_nil, or_false] at ht
    rcases ht with rfl | rfl | rfl | rfl
    · exact .inl rfl
    · cases hdash
    · exact .inr ⟨_, hmethod⟩
    · exact .inr ⟨_, hentry⟩
  have hflag : "--add-method=m".toList ∈ "--dry-run".toList :: "f".toList :: flags := by decide
  obtain ⟨a, tree', hparse⟩ := hiff.2 ⟨⟨"f".toList, by decide⟩, hdashed, _, hflag, _, hmethod⟩
  obtain ⟨rfl, hfile, -, hdry, hmoved⟩ := hmeans a tree' hparse
  refine ⟨a, hparse, hmoved _ (by decide) (by decide) (by decide), ?_, hdry.2 List.mem_cons_self⟩
  exact (List.singleton_inj.1 hfile).symm

end

end Graft
