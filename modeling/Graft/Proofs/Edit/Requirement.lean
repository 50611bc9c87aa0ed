/-
What edits need of a file stays true while a queue is run.

An edit asks the file which kinds of classes its declaration unit declares and whether the unit returns an array.  A
queue asks before its first edit is run, of the file as it was read.  What the answers are drawn from, with the order of
the namespaces that tells where the unit is, are the landmarks of a file, and no edit changes them.

* `Stmt.feature?`, `File.landmarks` — what a statement and a file tell;
* `PreparedEdit.landmarks_run`, `landmarks_runAll` — an edit and a queue keep the landmarks;
* `runAll_keeps_requirements` — what a queue was prepared for is true of every file that one of its edits is run on.
-/
import Graft.Proofs.Edit.Import
import Graft.Proofs.Edit.Settled
import Graft.Proofs.Edit.FirstClass
import Graft.Proofs.Tree.Target

namespace Graft

/-! ### Features and landmarks -/

/-- What a statement of the unit tells an edit. -/
inductive Feature where
  | declares (kind : ClassKind)
  | returnsArray
deriving DecidableEq

/-- The kind of class that is declared. -/
def Feature.kind? : Feature → Option ClassKind
  | declares kind => some kind
  | returnsArray => none

namespace Stmt

def feature? : Stmt → Option Feature
  | .classLike c => some (.declares c.kind)
  | .ret r => if r.array?.isSome then some .returnsArray else none
  | _ => none

theorem feature?_kind? (s : Stmt) : s.feature?.bind Feature.kind? = s.classLike?.map ClassLike.kind := by
  cases s with
  | ret r =>
    rw [feature?]
    split <;> rfl
  | _ => rfl

theorem feature?_eq_returnsArray {s : Stmt} :
    s.feature? = some .returnsArray ↔ (s.return?.bind ReturnStmt.array?).isSome = true := by
  cases s with
  | ret r =>
    rw [feature?, return?, Option.bind_some]
    split <;> simp_all
  | classLike c => exact ⟨nofun, nofun⟩
  | _ => exact ⟨nofun, nofun⟩

end Stmt

/-- The namespace without its statements: where it stands in the text, its name and its braces. -/
def Namespace.emptied (n : Namespace) : Namespace := { n with stmts := [] }

/-- A namespace with what its statements tell, or what a statement outside of namespaces tells. -/
inductive Landmark where
  | inside (ns : Namespace) (features : List Feature)
  | plain (feature : Feature)

namespace Landmark

def inside? : Landmark → Option (Namespace × List Feature)
  | inside ns features => some (ns, features)
  | plain _ => none

def plain? : Landmark → Option Feature
  | inside _ _ => none
  | plain feature => some feature

/-- What the statements of the unit tell: those of the first namespace, or those outside when there is none. -/
def unitFeatures (marks : List Landmark) : List Feature :=
  match marks.findSome? inside? with
  | some (_, features) => features
  | none => marks.filterMap plain?

end Landmark

def TopStmt.landmark? : TopStmt → Option Landmark
  | .inside n => some (.inside n.emptied (n.stmts.filterMap Stmt.feature?))
  | .plain s => s.feature?.map .plain

namespace File

def landmarks (f : File) : List Landmark := f.stmts.filterMap TopStmt.landmark?

/-- The namespaces of the file without their statements, in order.  The unit is the body of the first one, and all
statements of the file when there is none. -/
def namespaces (f : File) : List Namespace := f.stmts.filterMap fun s => s.namespace?.map Namespace.emptied

/-! ### What landmarks tell -/

theorem namespaces_eq (f : File) : f.namespaces = f.landmarks.filterMap fun m => m.inside?.map Prod.fst := by
  rw [namespaces, landmarks, List.filterMap_filterMap]
  refine congrArg (List.filterMap · f.stmts) (funext fun s => ?_)
  cases s with
  | inside n => rfl
  | plain s =>
    show none = (s.feature?.map Landmark.plain).bind _
    cases s.feature? <;> rfl

theorem unitFeatures_landmarks (f : File) : Landmark.unitFeatures f.landmarks = f.unit.filterMap Stmt.feature? := by
  have hinside : ∀ ss : List TopStmt, (ss.filterMap TopStmt.landmark?).findSome? Landmark.inside? =
      (ss.findSome? TopStmt.namespace?).map fun n => (n.emptied, n.stmts.filterMap Stmt.feature?) := by
    intro ss
    induction ss with
    | nil => rfl
    | cons s ss ih =>
      cases s with
      | inside n => rfl
      | plain s =>
        rw [findSome?_namespace?_cons_plain, ← ih, List.filterMap_cons, TopStmt.landmark?]
        cases s.feature? <;> rfl
  have hplain : f.landmarks.filterMap Landmark.plain? =
      (f.stmts.filterMap TopStmt.plain?).filterMap Stmt.feature? := by
    rw [landmarks, List.filterMap_filterMap, List.filterMap_filterMap]
    refine congrArg (List.filterMap · f.stmts) (funext fun s => ?_)
    cases s with
    | inside n => rfl
    | plain s =>
      show (s.feature?.map Landmark.plain).bind Landmark.plain? = s.feature?
      cases s.feature? <;> rfl
  rw [Landmark.unitFeatures, hplain, landmarks, hinside, unit]
  cases f.stmts.findSome? TopStmt.namespace? <;> rfl

theorem kinds_eq (f : File) :
    f.declarations.map ClassLike.kind = (Landmark.unitFeatures f.landmarks).filterMap Feature.kind? := by
  rw [unitFeatures_landmarks, declarations, List.map_filterMap, List.filterMap_filterMap]
  exact congrArg (List.filterMap · f.unit) (funext fun s => s.feature?_kind?.symm)

theorem isSome_returnedArray?_iff (f : File) :
    f.returnedArray?.isSome = true ↔ Feature.returnsArray ∈ Landmark.unitFeatures f.landmarks := by
  rw [unitFeatures_landmarks, returnedArray?, List.findSome?_isSome_iff, List.mem_filterMap]
  simp only [Stmt.feature?_eq_returnsArray]

end File

variable {f g : File}

theorem namespaces_of_landmarks (h : f.landmarks = g.landmarks) : f.namespaces = g.namespaces := by
  rw [File.namespaces_eq, h, ← File.namespaces_eq]

theorem kinds_of_landmarks (h : f.landmarks = g.landmarks) :
    f.declarations.map ClassLike.kind = g.declarations.map ClassLike.kind := by
  rw [File.kinds_eq, h, ← File.kinds_eq]

theorem returnedArray?_of_landmarks (h : f.landmarks = g.landmarks) :
    f.returnedArray?.isSome = g.returnedArray?.isSome := by
  rw [Bool.eq_iff_iff, File.isSome_returnedArray?_iff, h, ← File.isSome_returnedArray?_iff]

/-- Files with the same landmarks have what the same edits need. -/
theorem require_of_landmarks (h : f.landmarks = g.landmarks) (e : Edit) : e.require f = e.require g := by
  have hdeclares : ∀ kinds, f.declaresAny kinds = g.declaresAny kinds := by
    intro kinds
    have hkinds : ∀ k : File, k.declaresAny kinds = (k.declarations.map ClassLike.kind).any kinds.contains := by
      intro k
      rw [List.any_map]
      rfl
    rw [hkinds, kinds_of_landmarks h, ← hkinds]
  cases e with
  | addImport name => rw [Edit.require, Edit.require, hdeclares]
  | addTrait name => rw [Edit.require, Edit.require, hdeclares]
  | addInterface name => rw [Edit.require, Edit.require, hdeclares]
  | setConfig path value => rw [Edit.require, Edit.require, returnedArray?_of_landmarks h]
  | _ => rfl

/-! ### Changes of a file -/

/-- A change of the unit that keeps what its statements tell keeps the landmarks. -/
theorem landmarks_updateUnit {g : List Stmt → List Stmt}
    (hg : ∀ ss, (g ss).filterMap Stmt.feature? = ss.filterMap Stmt.feature?) (f : File) :
    (f.updateUnit g).landmarks = f.landmarks := by
  obtain ⟨h, hf⟩ := f.exists_fill
  rw [UnitHole.updateUnit_fill hf, File.landmarks, File.landmarks, hf]
  cases h with
  | whole =>
    have hplain : ∀ ss : List Stmt, (ss.map TopStmt.plain).filterMap TopStmt.landmark? =
        (ss.filterMap Stmt.feature?).map .plain := by
      intro ss
      rw [List.filterMap_map, List.map_filterMap]
      rfl
    simp only [UnitHole.fill, hplain, hg]
  | inside l n r =>
    simp only [UnitHole.fill, List.filterMap_append, List.filterMap_cons, TopStmt.landmark?, Namespace.emptied, hg]

/-- A class that is changed and stays of its kind keeps the landmarks, wherever it is declared. -/
theorem landmarks_updateClass? {k : ClassLike → ClassLike} (hk : ∀ c, (k c).kind = c.kind)
    (h : f.updateClass? k = some g) : g.landmarks = f.landmarks := by
  have hstmt : ∀ s t : Stmt, s.updateClass? k = some t → t.feature? = s.feature? := by
    intro s t hst
    cases s with
    | classLike c =>
      rw [Stmt.updateClass?] at hst
      split at hst
      · cases hst
        rw [Stmt.feature?, Stmt.feature?, hk]
      · cases hst
    | _ => cases hst
  have htop : ∀ s t : TopStmt, s.updateClass? k = some t → t.landmark? = s.landmark? := by
    intro s t hst
    cases s with
    | inside n =>
      obtain ⟨ss, hss, rfl⟩ := Option.map_eq_some_iff.1 hst
      rw [TopStmt.landmark?, TopStmt.landmark?, filterMap_of_updateFirst? hstmt hss]
      rfl
    | plain s =>
      obtain ⟨u, hu, rfl⟩ := Option.map_eq_some_iff.1 hst
      rw [TopStmt.landmark?, TopStmt.landmark?, hstmt s u hu]
  obtain ⟨ss, hss, rfl⟩ := Option.map_eq_some_iff.1 h
  exact filterMap_of_updateFirst? htop hss

/-- A new import tells nothing. -/
theorem filterMap_feature?_addImport (name : Text) (ss : List Stmt) :
    (addImport name ss).filterMap Stmt.feature? = ss.filterMap Stmt.feature? := by
  unfold addImport
  split
  · rfl
  · rw [insertAt, List.filterMap_append, List.filterMap_cons_none rfl, ← List.filterMap_append, List.take_append_drop]

theorem withoutImport?_feature? (name : Text) (s : Stmt) : (s.withoutImport? name).bind Stmt.feature? = s.feature? := by
  cases s with
  | imports d =>
    rw [Stmt.withoutImport?]
    split <;> rfl
  | _ => rfl

/-- What is removed tells nothing, inside of namespaces and outside. -/
theorem landmarks_removeImport (name : Text) (f : File) : (removeImport name f).landmarks = f.landmarks := by
  have hstmts : ∀ ss : List Stmt, (ss.filterMap (Stmt.withoutImport? name)).filterMap Stmt.feature? =
      ss.filterMap Stmt.feature? := by
    intro ss
    rw [List.filterMap_filterMap]
    exact congrArg (List.filterMap · ss) (funext (withoutImport?_feature? name))
  rw [File.landmarks, removeImport, List.filterMap_filterMap]
  refine congrArg (List.filterMap · f.stmts) (funext fun s => ?_)
  cases s with
  | inside n =>
    rw [TopStmt.withoutImport?, Option.bind_some, TopStmt.landmark?, TopStmt.landmark?, hstmts]
    rfl
  | plain s =>
    rw [TopStmt.withoutImport?, TopStmt.landmark?, ← withoutImport?_feature? name]
    cases s.withoutImport? name <;> rfl

/-- A statement that returned an array returns the changed one. -/
theorem filterMap_feature?_updateArray (g : ArrayLit Expr → ArrayLit Expr) (ss : List Stmt) :
    (updateFirst (fun s => s.return?.bind fun r => (r.updateArray? g).map .ret) ss).filterMap Stmt.feature? =
      ss.filterMap Stmt.feature? := by
  unfold updateFirst
  cases hss : updateFirst? (fun s : Stmt => s.return?.bind fun r => (r.updateArray? g).map .ret) ss with
  | none => rfl
  | some ts =>
    refine filterMap_of_updateFirst? (fun s t hst => ?_) hss
    obtain ⟨r, hr, hst⟩ := Option.bind_eq_some_iff.1 hst
    obtain ⟨r', hr', rfl⟩ := Option.map_eq_some_iff.1 hst
    obtain ⟨a, ha, rfl⟩ := Option.map_eq_some_iff.1 hr'
    rw [Stmt.eq_of_return? s r hr, Stmt.feature?, Stmt.feature?, ha]
    rfl

/-! ### Runs -/

/-- An edit keeps the landmarks, whether or not it has met its class before. -/
theorem PreparedEdit.landmarks_run (p : PreparedEdit) (f : File) : (p.run f).2.landmarks = f.landmarks := by
  unfold run
  cases hclass : p.edit.onClass? p.method with
  | none =>
    show (p.edit.onFile f).landmarks = f.landmarks
    cases p.edit with
    | addImport name => exact landmarks_updateUnit (filterMap_feature?_addImport _) f
    | removeImport name => exact landmarks_removeImport _ f
    | setConfig path value => exact landmarks_updateUnit (filterMap_feature?_updateArray _) f
    | _ => rfl
  | some k =>
    have hk : ∀ c, (k c).kind = c.kind := fun c => by rw [Edit.onClass?_frame hclass c]
    show (if p.spent then (p, f) else _).2.landmarks = _
    cases p.spent with
    | true => rfl
    | false =>
      cases hupdate : f.updateClass? k with
      | none => rfl
      | some g => exact landmarks_updateClass? hk hupdate

/-- A queue keeps the landmarks. -/
theorem landmarks_runAll (ps : List PreparedEdit) (f : File) : (runAll ps f).landmarks = f.landmarks := by
  induction ps generalizing f with
  | nil => rfl
  | cons p ps ih => exact (ih (p.run f).2).trans (p.landmarks_run f)

/-! ### Prepared queues -/

/-- Every edit of a prepared queue was prepared. -/
theorem exists_prepare_of_mem {qs rs : List PreparedEdit} {a b : Arena} (h : prepareEach f qs a = .ok (rs, b))
    {p : PreparedEdit} (hp : p ∈ rs) : ∃ q ∈ qs, ∃ c d, q.prepare f c = (.ok p, d) := by
  induction qs generalizing a rs with
  | nil =>
    cases h
    cases hp
  | cons q qs ih =>
    obtain ⟨p', c, rs', hp', hrs', rfl⟩ := prepareEach_cons_eq_ok.1 h
    rcases List.mem_cons.1 hp with rfl | hp
    · exact ⟨q, List.mem_cons_self, a, c, hp'⟩
    · obtain ⟨q', hq', hprepare⟩ := ih hrs' hp
      exact ⟨q', List.mem_cons_of_mem _ hq', hprepare⟩

/-- Whether a snippet holds a method does not hang on the arena that it is read into. -/
theorem exists_parseMethod {code : Text} {a b : Arena} {m : Method} (h : a.parseMethod code = (.ok (some m), b))
    (c : Arena) : ∃ m' d, c.parseMethod code = (.ok (some m'), d) := by
  -- Both arenas have grown from the empty one, and what they read is compared with what it reads.
  have hgrows : ∀ d : Arena, Arena.empty.Grows d := fun d => ⟨Nat.zero_le _, Nat.zero_le _⟩
  obtain ⟨-, err, b', hb'⟩ | ⟨m₀, b₀, b', φ, hm₀, hm⟩ := (hgrows a).parseMethod code
  · rw [h] at hb'
    cases hb'
  · obtain rfl | ⟨m₀, rfl⟩ := m₀.eq_none_or_eq_some
    · rw [h] at hm
      cases hm
    · obtain ⟨⟨err, b₁, hb₁⟩, -⟩ | ⟨m₁, b₁, d, ψ, hm₁, hd⟩ := (hgrows c).parseMethod code
      · rw [hm₀] at hb₁
        cases hb₁
      · rw [hm₀] at hm₁
        cases hm₁
        exact ⟨_, d, hd⟩

/-- An edit that was prepared can be prepared again, for any file with the same landmarks and with any arena. -/
theorem PreparedEdit.prepare_of_landmarks {q p : PreparedEdit} {a b : Arena} (h : q.prepare f a = (.ok p, b))
    (hfg : g.landmarks = f.landmarks) (c : Arena) : ∃ p' d, p.prepare g c = (.ok p', d) := by
  have hedit : p.edit = q.edit := (prepare_eq_ok h).1
  unfold prepare at h ⊢
  rw [hedit]
  split at h
  · rename_i code hcode
    split at h
    · cases h
    · cases h
    · rename_i m b' hm
      obtain ⟨m', d, hd⟩ := exists_parseMethod hm c
      rw [hcode]
      simp only [hd]
      exact ⟨_, _, rfl⟩
  · obtain ⟨hrequire, -⟩ := Prod.mk.inj h
    obtain ⟨u, hu, -⟩ := except_map_eq_ok.1 hrequire
    rw [require_of_landmarks hfg, hu]
    exact ⟨_, _, rfl⟩

/-- What edits ask of a file is the same behind any run as it was before: where the declaration unit is, the kinds of
classes it declares, and whether it returns an array.  So each edit of a queue that was prepared can still be prepared
with the file that it is run on. -/
theorem runAll_keeps_requirements (f : File) :
    (∀ ps, (runAll ps f).namespaces = f.namespaces ∧
      (runAll ps f).declarations.map ClassLike.kind = f.declarations.map ClassLike.kind ∧
      (runAll ps f).returnedArray?.isSome = f.returnedArray?.isSome) ∧
    ∀ qs a rs b, prepareEach f qs a = .ok (rs, b) →
      ∀ l p r, rs = l ++ p :: r → ∀ c, ∃ p' d, p.prepare (runAll l f) c = (.ok p', d) := by
  refine ⟨fun ps => ?_, fun qs a rs b hprepare l p r hrs c => ?_⟩
  · have hmarks := landmarks_runAll ps f
    exact ⟨namespaces_of_landmarks hmarks, kinds_of_landmarks hmarks, returnedArray?_of_landmarks hmarks⟩
  · have hp : p ∈ rs := by
      rw [hrs]
      exact List.mem_append_right _ List.mem_cons_self
    obtain ⟨q, -, c', d', hq⟩ := exists_prepare_of_mem hprepare hp
    exact PreparedEdit.prepare_of_landmarks hq (landmarks_runAll l f) c

/-- An import is taken out of a namespace and a trait and a method are put into its class; the array that it returns is
still there to be set. -/
theorem runAll_keeps_requirements_returning :
    ∃ f a p q r s b,
      Arena.empty.parseFile "<?php\nnamespace N;\nuse B;\nclass A \x7b\x7d\nreturn ['k' => 1];".toList = (.ok f, a) ∧
      prepareEach f [.ofEdit (.removeImport "B".toList), .ofEdit (.addTrait "T".toList),
        .ofEdit (.addMethod "function m();".toList), .ofEdit (.setConfig "k".toList (.int 2))] a = .ok ([p, q, r, s], b) ∧
      (runAll [p, q, r] f).namespaces.length = 1 ∧
      (runAll [p, q, r] f).declarations.map ClassLike.kind = [.cls] ∧
      (runAll [p, q, r] f).returnedArray?.isSome = true ∧
      ∃ s' d, s.prepare (runAll [p, q, r] f) b = (.ok s', d) := by
  have hcheck : (Arena.empty.parseFile
        "<?php\nnamespace N;\nuse B;\nclass A \x7b\x7d\nreturn ['k' => 1];".toList).1.toOption.bind (fun f =>
      (prepareEach f [.ofEdit (.removeImport "B".toList), .ofEdit (.addTrait "T".toList),
          .ofEdit (.addMethod "function m();".toList), .ofEdit (.setConfig "k".toList (.int 2))]
        (Arena.empty.parseFile "<?php\nnamespace N;\nuse B;\nclass A \x7b\x7d\nreturn ['k' => 1];".toList).2).toOption.map
        fun r => (r.1.length, f.namespaces.length, f.declarations.map ClassLike.kind, f.returnedArray?.isSome)) =
      some (4, 1, [.cls], true) := by
    decide +kernel
  cases hf : Arena.empty.parseFile "<?php\nnamespace N;\nuse B;\nclass A \x7b\x7d\nreturn ['k' => 1];".toList with
  | mk result a =>
    rw [hf] at hcheck
    cases result with
    | error err => cases hcheck
    | ok f =>
      obtain ⟨⟨ps, b⟩, hps, hvalues⟩ := Option.map_eq_some_iff.1 hcheck
      simp only [Prod.mk.injEq] at hvalues
      obtain ⟨hlength, hnamespaces, hkinds, hreturns⟩ := hvalues
      obtain ⟨p, q, r, s, rfl⟩ := List.length_eq_four.1 hlength
      have hprepare := eq_ok_of_toOption hps
      obtain ⟨hkeeps, hqueue⟩ := runAll_keeps_requirements f
      obtain ⟨hn, hk, hr⟩ := hkeeps [p, q, r]
      exact ⟨f, a, p, q, r, s, b, rfl, hprepare, hn ▸ hnamespaces, hk ▸ hkinds, hr ▸ hreturns,
        hqueue _ _ _ _ hprepare [p, q, r] s [] rfl b⟩

end Graft
