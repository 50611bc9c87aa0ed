/-
Saves that are all or nothing.

A session is a sequence of calls on one queue, and its history says of every call what it answered and what it met and
left: the queue and the disk.  The disk may refuse a read or a write whenever it likes; all that is asked of it is that
a refused access has no effect on the text behind the path, and that nothing else writes there.  Every call is then
described by itself (`allOrNothing_event`), and what lies between two calls carries the edits and the text over.

* `Disk.Guards` — a disk on which nothing but writes to a path changes the text behind it;
* `FileTree.guards` — a tree of files is one;
* `history_allOrNothing` — the text changes only at a save that answers `true`, and what was shown is what is saved.
-/
import Graft.Edit.Queue
import Graft.Proofs.Project.FileTree

namespace Graft

/-! ### Disks -/

/-- The text behind a path changes only when it is written, and a read or a write of it either completes or fails
without effect. -/
structure Disk.Guards {σ : Type} [Disk (StateM σ)] (path : Text) (text? : σ → Option Text) : Prop where
  keeps : ∀ s, text? ((Disk.readText path : StateM σ _).run s).2 = text? s
  reads : ∀ s t, ((Disk.readText path : StateM σ _).run s).1 = .ok t → text? s = some t
  writes : ∀ s t, ((Disk.writeText path t : StateM σ _).run s).1 = .ok () →
    text? ((Disk.writeText path t : StateM σ _).run s).2 = some t
  refuses : ∀ s t e, ((Disk.writeText path t : StateM σ _).run s).1 = .error e →
    text? ((Disk.writeText path t : StateM σ _).run s).2 = text? s

/-! ### Trees of files -/

namespace FileTree

variable {t t' : FileTree} {path s : Text}

/-- A text that was written is read again. -/
theorem readText_writeText (h : t.writeText path s = .ok t') : t'.readText path = .ok s := by
  obtain ⟨p, x, hlocate, hp, rfl⟩ := write_eq_ok h
  have hget := get?_put_self (isAbove_eq_false hp) (.file (.text s) x) t
  simp only [readText, read, find, locate_put hp _ hlocate, bind, Except.bind, hget, pure, Except.pure]

/-- A tree of files holds the text that was written last. -/
theorem guards (path : Text) : Disk.Guards path fun tree : FileTree => (tree.readText path).toOption where
  keeps _ := rfl
  reads s t h := by
    have h : s.readText path = .ok t := h
    rw [h]
    rfl
  writes s t h := by
    simp only [Disk.writeText, StateT.run_bind, StateT.run_get, pure_bind] at h ⊢
    cases hw : s.writeText path t with
    | error e =>
      rw [hw] at h
      cases h
    | ok tree => exact congrArg Except.toOption (readText_writeText hw)
  refuses s t e h := by
    simp only [Disk.writeText, StateT.run_bind, StateT.run_get, pure_bind] at h ⊢
    cases hw : s.writeText path t with
    | error e => rfl
    | ok tree =>
      rw [hw] at h
      cases h

end FileTree

/-! ### Sessions -/

/-- What is asked of a queue. -/
inductive Call where
  | enqueue (edits : List PreparedEdit)
  | render
  | save

/-- What a call answers. -/
inductive Answer where
  | enqueued
  | shown (text : Option Text)
  | saved (done : Bool)
  | refused (err : EditError)
deriving DecidableEq

/-- The answer of a call that may be refused. -/
def Answer.ofExcept {α : Type} (f : α → Answer) : Except EditError α → Answer
  | .ok x => f x
  | .error err => .refused err

namespace EditQueue

variable {σ : Type} [Disk (StateM σ)]

/-- The disk refuses to read or to write the file of a queue, or the edits refuse its text. -/
def Refuses (text? : σ → Option Text) (q : EditQueue) (s : σ) (err : EditError) : Prop :=
  (∃ cause, err = .io q.path cause ∧
    let read := (Disk.readText q.path : StateM σ _).run s
    (read.1 = .error cause ∨ ∃ t, ((Disk.writeText q.path t : StateM σ _).run read.2).1 = .error cause)) ∨
  ∃ source, text? s = some source ∧ applyEach source q.edits = .error err

/-- Answers a call. -/
def answer (q : EditQueue) : Call → StateM σ (Answer × EditQueue)
  | .enqueue edits => return (.enqueued, q.enqueue edits)
  | .render => do return (.ofExcept .shown (← q.render), q)
  | .save => do
    let (saved, q) ← q.save
    return (.ofExcept .saved saved, q)

end EditQueue

/-- A call that was answered, with the queue and the disk that it met and those that it left. -/
structure CallEvent (σ : Type) where
  call : Call
  answer : Answer
  queue : EditQueue
  disk : σ
  nextQueue : EditQueue
  nextDisk : σ

section

variable {σ : Type} [Disk (StateM σ)]

/-- The event of a call. -/
def event (call : Call) (q : EditQueue) (s : σ) : CallEvent σ :=
  let r := (q.answer call).run s
  ⟨call, r.1.1, q, s, r.1.2, r.2⟩

/-- The events of the calls of a session. -/
def history : List Call → EditQueue → σ → List (CallEvent σ)
  | [], _, _ => []
  | call :: calls, q, s =>
    let e := event call q s
    e :: history calls e.nextQueue e.nextDisk

end

namespace CallEvent

variable {σ : Type} [Disk (StateM σ)]

/-- What a call does to a file, whose text the disk holds, and to its queue. -/
structure AllOrNothing (text? : σ → Option Text) (e : CallEvent σ) : Prop where
  /-- The text changes only at a save that answers `true`. -/
  changes : text? e.nextDisk ≠ text? e.disk → e.answer = .saved true
  /-- Such a save leaves the text that the queue makes of the old one, and an empty queue. -/
  saves : e.answer = .saved true → e.queue.edits ≠ [] ∧ e.nextQueue = { e.queue with edits := [] } ∧
    ∃ source t, text? e.disk = some source ∧ applyEach source e.queue.edits = .ok t ∧ text? e.nextDisk = some t
  /-- A text that is shown is the one that the queue makes of the text, and both stay. -/
  shows : ∀ t, e.answer = .shown (some t) →
    text? e.nextDisk = text? e.disk ∧ e.nextQueue = e.queue ∧ e.queue.edits ≠ [] ∧
      ∃ source, text? e.disk = some source ∧ applyEach source e.queue.edits = .ok t
  /-- Edits are put into the queue behind those that are there, and the disk is not touched. -/
  enqueues : ∀ edits, e.call = .enqueue edits →
    e.answer = .enqueued ∧ e.nextQueue = e.queue.enqueue edits ∧ e.nextDisk = e.disk
  /-- Nothing else but a save that answers `true` changes the queue. -/
  keeps : (∀ edits, e.call ≠ .enqueue edits) → e.answer ≠ .saved true → e.nextQueue = e.queue
  /-- A call fails because the disk or an edit refuses it, and leaves the text and the queue. -/
  fails : ∀ err, e.answer = .refused err →
    text? e.nextDisk = text? e.disk ∧ e.nextQueue = e.queue ∧ e.queue.edits ≠ [] ∧ e.queue.Refuses text? e.disk err
  /-- There is nothing to show or to save only when the queue is empty. -/
  empty : e.answer = .shown none ∨ e.answer = .saved false → e.queue.edits = []
  /-- With an empty queue there is nothing to show or to save, and the disk is not touched. -/
  idle : e.queue.edits = [] → (e.call = .render → e.answer = .shown none ∧ e.nextDisk = e.disk) ∧
    (e.call = .save → e.answer = .saved false ∧ e.nextDisk = e.disk)

namespace AllOrNothing

variable {text? : σ → Option Text} {e : CallEvent σ}

theorem path_nextQueue (h : e.AllOrNothing text?) : e.nextQueue.path = e.queue.path := by
  by_cases hcall : ∃ edits, e.call = .enqueue edits
  · obtain ⟨edits, hedits⟩ := hcall
    rw [(h.enqueues edits hedits).2.1]
    rfl
  · by_cases hsaved : e.answer = .saved true
    · rw [(h.saves hsaved).2.1]
    · rw [h.keeps (not_exists.1 hcall) hsaved]

/-- Between two calls that put in or take out edits, the queue and the text stay. -/
theorem stays (h : e.AllOrNothing text?) (hcall : ∀ edits, e.call ≠ .enqueue edits)
    (hanswer : e.answer ≠ .saved true) : e.nextQueue = e.queue ∧ text? e.nextDisk = text? e.disk := by
  refine ⟨h.keeps hcall hanswer, ?_⟩
  by_cases hsame : text? e.nextDisk = text? e.disk
  · exact hsame
  · exact absurd (h.changes hsame) hanswer

end AllOrNothing

end CallEvent

/-! ### One call -/

/-- An action goes on from where the one before it has come to. -/
theorem run_bind_of_run {σ α β : Type} {x : StateM σ α} {f : α → StateM σ β} {s s' : σ} {r : α}
    (h : x.run s = (r, s')) : (x >>= f).run s = (f r).run s' := by
  rw [StateT.run_bind, h]
  rfl

section

variable {σ : Type} [Disk (StateM σ)] {text? : σ → Option Text} {q : EditQueue}

theorem event_of_run {call : Call} {s s' : σ} {q' : EditQueue} {r : Answer}
    (h : (q.answer call).run s = ((r, q'), s')) : event call q s = ⟨call, r, q, s, q', s'⟩ := by
  rw [event, h]

theorem event_render {s s' : σ} {r : Except EditError (Option Text)} (h : (q.render : StateM σ _).run s = (r, s')) :
    event .render q s = ⟨.render, .ofExcept .shown r, q, s, q, s'⟩ :=
  event_of_run (run_bind_of_run h)

theorem event_save {s s' : σ} {q' : EditQueue} {r : Except EditError Bool}
    (h : (q.save : StateM σ _).run s = ((r, q'), s')) : event .save q s = ⟨.save, .ofExcept .saved r, q, s, q', s'⟩ :=
  event_of_run (run_bind_of_run h)

namespace EditQueue

/-- What a look at the text comes to. -/
theorem render_cases (hdisk : Disk.Guards q.path text?) (s : σ) :
    (q.edits = [] ∧ (q.render : StateM σ _).run s = (.ok none, s)) ∨
    ∃ r, (q.render : StateM σ _).run s = (r, ((Disk.readText q.path : StateM σ _).run s).2) ∧ q.edits ≠ [] ∧
      ((∃ source t, r = .ok (some t) ∧ text? s = some source ∧ applyEach source q.edits = .ok t) ∨
        ∃ err, r = .error err ∧ q.Refuses text? s err) := by
  by_cases hempty : q.edits = []
  · exact .inl ⟨hempty, by rw [render, if_pos (List.isEmpty_iff.2 hempty)]; rfl⟩
  · refine .inr ?_
    rw [render, if_neg (mt List.isEmpty_iff.1 hempty)]
    rcases hread : (Disk.readText q.path : StateM σ _).run s with ⟨e | source, s'⟩
    · have herr : q.Refuses text? s (.io q.path e) := .inl ⟨e, rfl, .inl (congrArg Prod.fst hread)⟩
      exact ⟨_, run_bind_of_run hread, hempty, .inr ⟨_, rfl, herr⟩⟩
    · have hsource : text? s = some source := hdisk.reads s source (congrArg Prod.fst hread)
      refine ⟨(applyEach source q.edits).map some, run_bind_of_run hread, hempty, ?_⟩
      cases happly : applyEach source q.edits with
      | error err => exact .inr ⟨err, rfl, .inr ⟨source, hsource, happly⟩⟩
      | ok t => exact .inl ⟨source, t, rfl, hsource, happly⟩

/-- What a save comes to. -/
theorem save_cases (hdisk : Disk.Guards q.path text?) (s : σ) :
    (q.edits = [] ∧ (q.save : StateM σ _).run s = ((.ok false, q), s)) ∨
    (q.edits ≠ [] ∧ ∃ source t s', (q.save : StateM σ _).run s = ((.ok true, { q with edits := [] }), s') ∧
      text? s = some source ∧ applyEach source q.edits = .ok t ∧ text? s' = some t) ∨
    (q.edits ≠ [] ∧ ∃ err s', (q.save : StateM σ _).run s = ((.error err, q), s') ∧ text? s' = text? s ∧
      q.Refuses text? s err) := by
  have hkept : text? ((Disk.readText q.path : StateM σ _).run s).2 = text? s := hdisk.keeps s
  rcases render_cases hdisk s with ⟨hempty, hrender⟩ | ⟨_, hrender, hedits, h⟩
  · exact .inl ⟨hempty, run_bind_of_run hrender⟩
  · rcases h with ⟨source, t, rfl, hsource, happly⟩ | ⟨err, rfl, herr⟩
    · -- The text is there; what is left is to write it.
      rcases hwrite : (Disk.writeText q.path t : StateM σ _).run _ with ⟨e | u, s'⟩
      · have hsame := hdisk.refuses _ t e (congrArg Prod.fst hwrite)
        rw [hwrite] at hsame
        have herr : q.Refuses text? s (.io q.path e) := .inl ⟨e, rfl, .inr ⟨t, congrArg Prod.fst hwrite⟩⟩
        exact .inr (.inr ⟨hedits, _, s', (run_bind_of_run hrender).trans (run_bind_of_run hwrite),
          hsame.trans hkept, herr⟩)
      · have hnew := hdisk.writes _ t (congrArg Prod.fst hwrite)
        rw [hwrite] at hnew
        exact .inr (.inl ⟨hedits, source, t, s', (run_bind_of_run hrender).trans (run_bind_of_run hwrite), hsource,
          happly, hnew⟩)
    · exact .inr (.inr ⟨hedits, err, _, run_bind_of_run hrender, hkept, herr⟩)

end EditQueue

/-- A call does all or nothing. -/
theorem allOrNothing_event (hdisk : Disk.Guards q.path text?) (call : Call) (s : σ) :
    (event call q s).AllOrNothing text? := by
  cases call with
  | enqueue edits =>
    exact {
      changes := fun h => absurd rfl h
      saves := nofun
      shows := nofun
      enqueues := fun _ h => by cases h; exact ⟨rfl, rfl, rfl⟩
      keeps := fun h => absurd rfl (h edits)
      fails := nofun
      empty := nofun
      idle := fun _ => ⟨nofun, nofun⟩ }
  | render =>
    have hkept : text? ((Disk.readText q.path : StateM σ _).run s).2 = text? s := hdisk.keeps s
    rcases EditQueue.render_cases hdisk s with ⟨hempty, hrender⟩ | ⟨_, hrender, hedits, h⟩
    · rw [event_render hrender]
      exact {
        changes := fun h => absurd rfl h
        saves := nofun
        shows := nofun
        enqueues := nofun
        keeps := fun _ _ => rfl
        fails := nofun
        empty := fun _ => hempty
        idle := fun _ => ⟨fun _ => ⟨rfl, rfl⟩, nofun⟩ }
    · rw [event_render hrender]
      exact {
        changes := fun h => absurd hkept h
        saves := by rcases h with ⟨_, _, rfl, -⟩ | ⟨_, rfl, -⟩ <;> exact nofun
        shows := fun t ht => by
          rcases h with ⟨source, u, rfl, hsource, happly⟩ | ⟨_, rfl, -⟩
          · cases ht
            exact ⟨hkept, rfl, hedits, source, hsource, happly⟩
          · cases ht
        enqueues := nofun
        keeps := fun _ _ => rfl
        fails := fun err herr => by
          rcases h with ⟨_, _, rfl, -⟩ | ⟨_, rfl, hrefuses⟩
          · cases herr
          · cases herr
            exact ⟨hkept, rfl, hedits, hrefuses⟩
        empty := by rcases h with ⟨_, _, rfl, -⟩ | ⟨_, rfl, -⟩ <;> exact nofun
        idle := fun h => absurd h hedits }
  | save =>
    rcases EditQueue.save_cases hdisk s with ⟨hempty, hsave⟩ | ⟨hedits, source, t, s', hsave, hsource, happly, hs'⟩ |
      ⟨hedits, err, s', hsave, hkept, hrefuses⟩
    · rw [event_save hsave]
      exact {
        changes := fun h => absurd rfl h
        saves := nofun
        shows := nofun
        enqueues := nofun
        keeps := fun _ _ => rfl
        fails := nofun
        empty := fun _ => hempty
        idle := fun _ => ⟨nofun, fun _ => ⟨rfl, rfl⟩⟩ }
    · rw [event_save hsave]
      exact {
        changes := fun _ => rfl
        saves := fun _ => ⟨hedits, rfl, source, t, hsource, happly, hs'⟩
        shows := nofun
        enqueues := nofun
        keeps := fun _ h => absurd rfl h
        fails := nofun
        empty := nofun
        idle := fun h => absurd h hedits }
    · rw [event_save hsave]
      exact {
        changes := fun h => absurd hkept h
        saves := nofun
        shows := nofun
        enqueues := nofun
        keeps := fun _ _ => rfl
        fails := fun _ h => by cases h; exact ⟨hkept, rfl, hedits, hrefuses⟩
        empty := nofun
        idle := fun h => absurd h hedits }

/-! ### Sessions -/

variable {path : Text}

/-- Every call of a session does all or nothing, whatever came before it. -/
theorem allOrNothing_of_mem_history (hdisk : Disk.Guards path text?) {calls : List Call} {s : σ} (hq : q.path = path)
    {e : CallEvent σ} (he : e ∈ history calls q s) : e.AllOrNothing text? := by
  induction calls generalizing q s with
  | nil => cases he
  | cons call calls ih =>
    have h : (event call q s).AllOrNothing text? := allOrNothing_event (hq.symm ▸ hdisk) call s
    rcases List.mem_cons.1 he with rfl | he
    · exact h
    · exact ih (h.path_nextQueue.trans hq) he

/-- A session goes on from what its first call leaves. -/
theorem history_eq_append_cons {calls : List Call} {s : σ} {before after : List (CallEvent σ)} {e : CallEvent σ}
    (hdisk : Disk.Guards path text?) (hq : q.path = path) (h : history calls q s = before ++ e :: after) :
    e.queue.path = path ∧ ∃ calls', after = history calls' e.nextQueue e.nextDisk := by
  induction before generalizing calls q s with
  | nil =>
    cases calls with
    | nil => cases h
    | cons call calls =>
      obtain ⟨rfl, rfl⟩ := List.cons.inj h
      exact ⟨hq, calls, rfl⟩
  | cons d before ih =>
    cases calls with
    | nil => cases h
    | cons call calls =>
      have hfirst : (event call q s).AllOrNothing text? := allOrNothing_event (hq.symm ▸ hdisk) call s
      exact ih (hfirst.path_nextQueue.trans hq) (List.cons.inj h).2

/-- Calls that put in and take out nothing hand the queue and the text over to the next one. -/
theorem history_stays {calls : List Call} {s : σ} {between after : List (CallEvent σ)} {e : CallEvent σ}
    (hdisk : Disk.Guards path text?) (hq : q.path = path) (h : history calls q s = between ++ e :: after)
    (hbetween : ∀ d ∈ between, (∀ edits, d.call ≠ .enqueue edits) ∧ d.answer ≠ .saved true) :
    e.queue = q ∧ text? e.disk = text? s := by
  induction between generalizing calls q s with
  | nil =>
    cases calls with
    | nil => cases h
    | cons call calls =>
      obtain ⟨rfl, -⟩ := List.cons.inj h
      exact ⟨rfl, rfl⟩
  | cons d between ih =>
    cases calls with
    | nil => cases h
    | cons call calls =>
      obtain ⟨rfl, hrest⟩ := List.cons.inj h
      obtain ⟨hd, hbetween⟩ := List.forall_mem_cons.1 hbetween
      have hfirst : (event call q s).AllOrNothing text? := allOrNothing_event (hq.symm ▸ hdisk) call s
      obtain ⟨hqueue, htext⟩ := hfirst.stays hd.1 hd.2
      obtain ⟨hqueue', htext'⟩ := ih (hfirst.path_nextQueue.trans hq) hrest hbetween
      exact ⟨hqueue'.trans hqueue, htext'.trans htext⟩

/-- In a session with a queue for a file, every call does all or nothing: the text changes only at a save that answers
`true`.  A text that was shown is shown again and is the one that is saved next, until edits are put into the queue. -/
theorem history_allOrNothing (hdisk : Disk.Guards path text?) (calls : List Call) (q : EditQueue) (hq : q.path = path)
    (s : σ) :
    (∀ e ∈ history calls q s, e.AllOrNothing text?) ∧
    ∀ before shown between later after t, history calls q s = before ++ shown :: (between ++ later :: after) →
      shown.answer = .shown (some t) →
      (∀ d ∈ between, (∀ edits, d.call ≠ .enqueue edits) ∧ d.answer ≠ .saved true) →
      (∀ u, later.answer = .shown u → u = some t) ∧
      ∀ b, later.answer = .saved b → b = true ∧ text? later.nextDisk = some t := by
  refine ⟨fun e he => allOrNothing_of_mem_history hdisk hq he, ?_⟩
  intro before shown between later after t hhistory hshown hbetween
  have hall : ∀ e ∈ history calls q s, e.AllOrNothing text? := fun e he => allOrNothing_of_mem_history hdisk hq he
  obtain ⟨hpath, calls', hrest⟩ := history_eq_append_cons hdisk hq hhistory
  have hshow := hall shown (by rw [hhistory]; simp)
  have hlater := hall later (by rw [hhistory]; simp)
  obtain ⟨hkept, hnext, hedits, source, hsource, happly⟩ := hshow.shows t hshown
  -- The later call meets the queue and the text that the text was made of.
  obtain ⟨hqueue, htext⟩ := history_stays hdisk (hshow.path_nextQueue.trans hpath) hrest.symm hbetween
  have hqueue := hqueue.trans hnext
  have htext := (htext.trans hkept).trans hsource
  have hedits : later.queue.edits ≠ [] := hqueue ▸ hedits
  have happly : applyEach source later.queue.edits = .ok t := hqueue ▸ happly
  have honly : ∀ source' u, text? later.disk = some source' → applyEach source' later.queue.edits = .ok u → u = t := by
    intro source' u hsource' hu
    cases htext.symm.trans hsource'
    exact Except.ok.inj (hu.symm.trans happly)
  constructor
  · intro u hu
    cases u with
    | none => exact absurd (hlater.empty (.inl hu)) hedits
    | some u =>
      obtain ⟨-, -, -, source', hsource', hu'⟩ := hlater.shows u hu
      rw [honly source' u hsource' hu']
  · intro b hb
    cases b with
    | false => exact absurd (hlater.empty (.inr hb)) hedits
    | true =>
      obtain ⟨-, -, source', u, hsource', hu, hnew⟩ := hlater.saves hb
      exact ⟨rfl, honly source' u hsource' hu ▸ hnew⟩

end

/-- A trait is shown twice and saved; a method that is put into the queue behind it is refused and changes nothing. -/
theorem history_allOrNothing_trait :
    ∃ enqueued shown again saved enqueued' refused : CallEvent FileTree,
      history [.enqueue [.ofEdit (.addTrait "U".toList)], .render, .render, .save,
          .enqueue [.ofEdit (.addMethod "function (".toList)], .save] ⟨"A.php".toList, []⟩
          [(["A.php".toList], .file (.text "<?php\nclass A \x7b use T; \x7d".toList) false)] =
        [enqueued, shown, again, saved, enqueued', refused] ∧
      shown.answer = .shown (some "<?php\nclass A \x7b use T, U; \x7d".toList) ∧
      saved.answer = .saved true ∧
      (saved.nextDisk.readText "A.php".toList).toOption = some "<?php\nclass A \x7b use T, U; \x7d".toList ∧
      refused.answer = .refused .brokenMethod ∧
      (refused.nextDisk.readText "A.php".toList).toOption = (refused.disk.readText "A.php".toList).toOption ∧
      refused.nextQueue = refused.queue := by
  have hall := history_allOrNothing (FileTree.guards "A.php".toList)
    [.enqueue [.ofEdit (.addTrait "U".toList)], .render, .render, .save,
      .enqueue [.ofEdit (.addMethod "function (".toList)], .save] ⟨"A.php".toList, []⟩ rfl
    [(["A.php".toList], .file (.text "<?php\nclass A \x7b use T; \x7d".toList) false)]
  have hanswers : (@history FileTree _ [.enqueue [.ofEdit (.addTrait "U".toList)], .render, .render, .save,
      .enqueue [.ofEdit (.addMethod "function (".toList)], .save] ⟨"A.php".toList, []⟩
      [(["A.php".toList], .file (.text "<?php\nclass A \x7b use T; \x7d".toList) false)]).map CallEvent.answer =
      [.enqueued, .shown (some "<?php\nclass A \x7b use T, U; \x7d".toList),
        .shown (some "<?php\nclass A \x7b use T, U; \x7d".toList), .saved true, .enqueued, .refused .brokenMethod] := by
    decide +kernel
  generalize @history FileTree _ _ _ _ = events at hall hanswers ⊢
  obtain ⟨hevents, hshown⟩ := hall
  obtain ⟨enqueued, _, rfl, -, hanswers⟩ := List.map_eq_cons_iff.1 hanswers
  obtain ⟨shown, _, rfl, hfirst, hanswers⟩ := List.map_eq_cons_iff.1 hanswers
  obtain ⟨again, _, rfl, hagain, hanswers⟩ := List.map_eq_cons_iff.1 hanswers
  obtain ⟨saved, _, rfl, hsaved, hanswers⟩ := List.map_eq_cons_iff.1 hanswers
  obtain ⟨enqueued', _, rfl, -, hanswers⟩ := List.map_eq_cons_iff.1 hanswers
  obtain ⟨refused, _, rfl, hrefused, hanswers⟩ := List.map_eq_cons_iff.1 hanswers
  cases List.map_eq_nil_iff.1 hanswers
  refine ⟨_, _, _, _, _, _, rfl, hfirst, hsaved, ?_, hrefused, ?_⟩
  · refine ((hshown [_] shown [again] saved [_, _] _ rfl hfirst ?_).2 true hsaved).2
    refine List.forall_mem_singleton.2 ⟨fun edits h => ?_, by rw [hagain]; exact nofun⟩
    cases hagain.symm.trans ((hevents again (by simp)).enqueues edits h).1
  · obtain ⟨htext, hqueue, -⟩ := (hevents refused (by simp)).fails _ hrefused
    exact ⟨htext, hqueue⟩

end Graft
