/-
Arrays within a file.

A file of which only one array has other entries is printed as the text that was read with the entries printed over
their region, through whatever the array stands in: a property among others or a return statement, in a method, a class
and a namespace.

* `Page.entriesText` — the entries of an array printed over their region;
* `Page.around_property`, `Member.HoldsArray.around` — the layers around an array;
* `File.HoldsArray.around` — a file of which one array has other entries.
-/
import Graft.Proofs.Print.Around
import Graft.Proofs.Print.Region
import Graft.Proofs.Tree.Target

namespace Graft

variable {G : Ground} {lo hi : Nat} {a : ArrayLit Expr} {is : List (ArrayItem Expr)}

/-- The text of the region of an array with other entries. -/
def Page.entriesText (p : Page) (a : ArrayLit Expr) (is : List (ArrayItem Expr)) : Text :=
  if ArrayItem.sameAll is a.items then p.arena.text.slice a.itemsRegion.start a.itemsRegion.stop
  else p.commaRegion a.itemsRegion a.items (p.arrayItems is a.items)

/-! ### What is equal -/

/-- An array with other entries is equal to the one that was read where the entries are. -/
theorem Expr.array_beq : (Expr.array { a with items := is } == .array a) = ArrayItem.sameAll is a.items := by
  have hsame : (Expr.array { a with items := is } == .array a) = (a.origin == a.origin && a.span == a.span &&
      a.short == a.short && a.itemsRegion == a.itemsRegion && ArrayItem.sameAll is a.items) := rfl
  simp [hsame]

theorem Page.entriesText_of_same {p : Page} (h : ArrayItem.sameAll is a.items = true) :
    p.entriesText a is = p.arena.text.slice a.itemsRegion.start a.itemsRegion.stop := if_pos h

theorem ReturnStmt.same_of_beq {s : ReturnStmt} (hexpr : s.expr = some (.array a))
    (h : (({ s with expr := some (.array { a with items := is }) } : ReturnStmt) == s) = true) :
    ArrayItem.sameAll is a.items = true := by
  have hsame : (({ s with expr := some (.array { a with items := is }) } : ReturnStmt) == s) =
      (s.origin == s.origin && (s.span == s.span && some (Expr.array { a with items := is }) == s.expr)) := rfl
  rw [hsame, hexpr, Bool.and_eq_true, Bool.and_eq_true] at h
  rw [← Expr.array_beq]
  exact h.2.2

theorem PropertyItem.same_of_beq {i : PropertyItem} (hdefault : i.default = some (.array a))
    (h : (({ i with default := some (.array { a with items := is }) } : PropertyItem) == i) = true) :
    ArrayItem.sameAll is a.items = true := by
  have hsame : (({ i with default := some (.array { a with items := is }) } : PropertyItem) == i) =
      (i.origin == i.origin && (i.span == i.span && (i.name == i.name &&
        some (Expr.array { a with items := is }) == i.default))) := rfl
  rw [hsame, hdefault, Bool.and_eq_true, Bool.and_eq_true, Bool.and_eq_true] at h
  rw [← Expr.array_beq]
  exact h.2.2.2

/-- A member that is equal to what it was read as holds the same entries. -/
theorem Member.HoldsArray.same_of_beq {m : Member} {put : ArrayLit Expr → Member} (hput : m.HoldsArray a put)
    (h : (put { a with items := is } == m) = true) : ArrayItem.sameAll is a.items = true := by
  cases hput with
  | property q l r i hitems hdefault =>
    have hsame : (Member.property { q with items := l ++ { i with default := some (.array { a with items := is }) } :: r }
        == .property q) = (q.origin == q.origin && (q.span == q.span && (q.modifiers == q.modifiers &&
          l ++ { i with default := some (.array { a with items := is }) } :: r == q.items))) := rfl
    rw [hsame, hitems, Bool.and_eq_true, Bool.and_eq_true, Bool.and_eq_true] at h
    exact PropertyItem.same_of_beq hdefault (list_beq_cons h.2.2.2)
  | method m d l r s hbody hstmts hexpr =>
    let t : BodyStmt := .ret { s with expr := some (.array { a with items := is }) }
    have hbeq := Method.body_of_beq (m := { m with body := some { d with stmts := l ++ t :: r } }) (n := m) h
    rw [hbody] at hbeq
    have hlist := Block.stmts_of_beq (b := { d with stmts := l ++ t :: r }) (d := d) hbeq
    rw [hstmts] at hlist
    have hreturn : (t == .ret s) = true := list_beq_cons hlist
    exact ReturnStmt.same_of_beq hexpr hreturn

/-! ### Expressions -/

namespace Page

variable {p : Page}

theorem isSome_of_fresh {e : Expr} (h : Fresh lo hi e.origins) : (Placed.origin e).isSome = true := by
  obtain ⟨i, hi, -⟩ := h.2 _ e.origin_mem_origins
  rw [hi]
  rfl

/-- An array around its entries. -/
theorem around_expr (hids : Fresh lo hi (Expr.array a).origins) (hlaid : (Expr.array a).Laid G)
    (hcut : G.Cuts p.arena.text) (is : List (ArrayItem Expr)) :
    p.arena.text.Around a.itemsRegion (p.entriesText a is) a.span.start a.span.stop
      (p.expr (.array { a with items := is }) (.array a)) := by
  have hedges := hlaid.1.edges
  obtain ⟨hregion, hcommas, -⟩ := Expr.arranged_array.1 hlaid.2
  obtain ⟨e, hspread, hend⟩ := hcommas.runs hcut
  have hinside := hspread.runs hend
  have hbefore : p.arena.text.Runs a.span.start a.itemsRegion.start := ⟨hcut _ hedges.1, hinside.1, hregion.1⟩
  have hbehind : p.arena.text.Runs a.itemsRegion.stop a.span.stop := ⟨hinside.2.1, hcut _ hedges.2, hregion.2.2⟩
  have horigin : ((Expr.array { a with items := is }).origin.isNone ||
      (Expr.array { a with items := is }).origin != (Expr.array a).origin) = false := by
    have hsome : a.origin.isSome = true := isSome_of_fresh hids
    simp [Expr.origin, Option.isNone_eq_false_iff.2 hsome]
  rw [expr_eq, Expr.array_beq, horigin, entriesText]
  split
  · exact .of_slice hbefore hinside hbehind rfl
  · rw [if_neg Bool.false_ne_true]
    exact around_splice hregion (hcut _ hedges.1) (hcut _ hedges.2) (.self hinside)

/-- A return statement around the array that it returns. -/
theorem around_returnStmt {s : ReturnStmt} (hexpr : s.expr = some (.array a)) (hids : Fresh lo hi s.origins)
    (hlaid : s.Laid G) (hcut : G.Cuts p.arena.text) (hstart : p.arena.text.IsCut s.span.start)
    (hstop : p.arena.text.IsCut s.span.stop) (is : List (ArrayItem Expr)) :
    p.arena.text.Around a.itemsRegion (p.entriesText a is) s.span.start s.span.stop
      (p.returnStmt { s with expr := some (.array { a with items := is }) } s) := by
  obtain ⟨hwithin, hexprLaid⟩ := hlaid _ hexpr
  rw [ReturnStmt.origins, hexpr] at hids
  simp only [returnStmt, hexpr]
  exact around_splice hwithin hstart hstop (around_expr hids.right hexprLaid hcut is)

/-! ### Properties -/

/-- A property around the array that is its default. -/
theorem around_propertyItem {i : PropertyItem} (hdefault : i.default = some (.array a)) (hids : Fresh lo hi i.origins)
    (hlaid : i.Laid G) (hcut : G.Cuts p.arena.text) (hstart : p.arena.text.IsCut i.span.start)
    (hstop : p.arena.text.IsCut i.span.stop) (is : List (ArrayItem Expr)) :
    p.arena.text.Around a.itemsRegion (p.entriesText a is) i.span.start i.span.stop
      (p.propertyItem { i with default := some (.array { a with items := is }) } i) := by
  obtain ⟨hwithin, hexprLaid⟩ := hlaid.2.2 _ hdefault
  have hwide : a.span.Within i.span := hwithin.widen (Nat.le_trans hlaid.1.1 hlaid.1.2.1) (Nat.le_refl _)
  rw [PropertyItem.origins, hdefault] at hids
  simp only [propertyItem, hdefault]
  exact around_splice hwide hstart hstop (around_expr hids.right hexprLaid hcut is)

/-- The element of a list with the origin of one of them is that one, where the origins are different. -/
theorem find?_origin_of_mem {is : List PropertyItem} (hnodup : (is.map Placed.origin).Nodup) {i : PropertyItem}
    (hi : i ∈ is) : is.find? (·.origin == i.origin) = some i := by
  induction is with
  | nil => cases hi
  | cons j is ih =>
    rw [List.map_cons, List.nodup_cons] at hnodup
    rcases List.mem_cons.1 hi with rfl | hi
    · exact List.find?_cons_of_pos (beq_self_eq_true _)
    · have hne : ¬(j.origin == i.origin) = true := fun h =>
        hnodup.1 (List.mem_map.2 ⟨i, hi, (beq_iff_eq.1 h).symm⟩)
      rw [List.find?_cons_of_neg (p := fun k : PropertyItem => k.origin == i.origin) hne, ih hnodup.2 hi]

/-- Of a declaration only the property is written that is changed. -/
theorem filterMap_itemPatch? {l r : List PropertyItem} {i j : PropertyItem} (horigin : j.origin = i.origin)
    (hself : ∀ k ∈ l ++ i :: r, (k == k) = true) (hnodup : ((l ++ i :: r).map Placed.origin).Nodup) :
    (l ++ j :: r).filterMap (p.itemPatch? (l ++ i :: r)) =
      if j == i then [] else [⟨i.span, p.propertyItem j i⟩] := by
  have hkept : ∀ k ∈ l ++ i :: r, p.itemPatch? (l ++ i :: r) k = none := by
    intro k hk
    rw [itemPatch?, find?_origin_of_mem hnodup hk, Option.bind_some, if_pos (hself k hk)]
  have hchanged : p.itemPatch? (l ++ i :: r) j = if j == i then none else some ⟨i.span, p.propertyItem j i⟩ := by
    rw [itemPatch?, horigin, find?_origin_of_mem hnodup (by simp), Option.bind_some]
  have hl : l.filterMap (p.itemPatch? (l ++ i :: r)) = [] :=
    List.filterMap_eq_nil_iff.2 fun k hk => hkept k (by simp [hk])
  have hr : r.filterMap (p.itemPatch? (l ++ i :: r)) = [] :=
    List.filterMap_eq_nil_iff.2 fun k hk => hkept k (by simp [hk])
  rw [List.filterMap_append, hl, List.nil_append, List.filterMap_cons, hchanged, hr]
  split
  · rename_i h
    split at h <;> simp_all
  · rename_i h
    split at h <;> simp_all

/-- A declaration around one of its properties. -/
theorem around_property {new : Text} {region : Span} {q : Property} {l r : List PropertyItem} {i j : PropertyItem}
    (hitems : q.items = l ++ i :: r) (horigin : j.origin = i.origin) (hids : Fresh lo hi q.origins) (hlaid : q.Laid G)
    (hcut : G.Cuts p.arena.text) (hstart : p.arena.text.IsCut q.span.start) (hstop : p.arena.text.IsCut q.span.stop)
    (hsame : (j == i) = true → new = p.arena.text.slice region.start region.stop)
    (h : p.arena.text.IsCut i.span.start → p.arena.text.IsCut i.span.stop →
      p.arena.text.Around region new i.span.start i.span.stop (p.propertyItem j i)) :
    p.arena.text.Around region new q.span.start q.span.stop (p.property { q with items := l ++ j :: r } q) := by
  obtain ⟨⟨bounds, hbounds, hcommas⟩, hitemsLaid⟩ := hlaid
  have hroots := hids.right.roots (fun _ => List.mem_cons_self)
  rw [hitems] at hcommas hitemsLaid hroots
  obtain ⟨e, hspread, hend⟩ := hcommas.runs hcut
  obtain ⟨-, hbefore, hbehind⟩ := weave_replaced hspread hend []
  have hpatches : ({ q with items := l ++ j :: r } : Property).items.filterMap (p.itemPatch? q.items) =
      if j == i then [] else [⟨i.span, p.propertyItem j i⟩] := by
    rw [hitems]
    exact filterMap_itemPatch? horigin (fun k hk => PropertyItem.beq_self (hitemsLaid k hk)) hroots.1
  rw [property_eq, hpatches]
  have haround := h hbefore.2.1 hbehind.1
  have hwithin : i.span.Within q.span := by
    have hinside := (haround.before.trans haround.inside).trans haround.behind
    exact ⟨Nat.le_trans hbounds.1 hbefore.2.2, hinside.2.2, Nat.le_trans hbehind.2.2 hbounds.2.2⟩
  split
  · rename_i heq
    rw [splice_nil]
    refine .of_slice ?_ haround.inside ?_ (hsame heq)
    · exact (show p.arena.text.Runs q.span.start i.span.start from ⟨hstart, hbefore.2.1, hwithin.1⟩).trans haround.before
    · exact haround.behind.trans ⟨hbehind.1, hstop, hwithin.2.2⟩
  · exact around_splice hwithin hstart hstop haround

end Page

/-! ### Statements of the unit -/

/-- A file around a statement of its unit. -/
theorem File.around_unitStmt {new : Text} {region : Span} {f : File} {b : Arena} {hole : UnitHole} {l r : List Stmt}
    {s t : Stmt} (hstmts : f.stmts = hole.fill (l ++ s :: r)) (horigin : Placed.origin t = Placed.origin s)
    (hspan : Placed.span t = Placed.span s) (hids : Fresh lo hi f.origins) (hlaid : f.Laid G) (hcut : G.Cuts b.text)
    (hstart : b.text.IsCut f.span.start) (hstop : b.text.IsCut f.span.stop)
    (hsame : (t == s) = true → new = b.text.slice region.start region.stop)
    (h : Fresh lo hi s.origins → s.Laid G → b.text.IsCut s.span.start → b.text.IsCut s.span.stop →
      let p : Page := ⟨b, .ofText (b.slice f.span)⟩
      b.text.Around region new s.span.start s.span.stop (p.stmt t s)) :
    b.text.Around region new f.span.start f.span.stop
      (({ f with stmts := hole.fill (l ++ t :: r) } : File).print f b) := by
  let p : Page := ⟨b, .ofText (b.slice f.span)⟩
  cases hole with
  | whole =>
    rw [UnitHole.fill, List.map_append, List.map_cons] at hstmts ⊢
    have hmem : TopStmt.plain s ∈ f.stmts := by simp [hstmts]
    have hsids : Fresh lo hi s.origins := Fresh.of_mem (f := TopStmt.origins) hids.right hmem
    refine File.around_stmt hstmts horigin hids hlaid hcut hstart hstop hsame fun hsstart hsstop => ?_
    exact Page.around_keptText (p := p) p.topStyle hspan hsame (h hsids (hlaid.stmts _ hmem) hsstart hsstop)
  | inside before n after =>
    let unit : Namespace := { n with stmts := l ++ s :: r }
    have hmem : TopStmt.inside unit ∈ f.stmts := by simp [hstmts, UnitHole.fill, unit]
    have hunit : unit.Laid G := hlaid.stmts _ hmem
    have huids : Fresh lo hi unit.origins := Fresh.of_mem (f := TopStmt.origins) hids.right hmem
    have hsmem : s ∈ unit.stmts := by simp [unit]
    have hsids : Fresh lo hi s.origins := Fresh.of_mem (f := Stmt.origins) huids.right hsmem
    have hequal : ((TopStmt.inside { unit with stmts := l ++ t :: r } : TopStmt) == .inside unit) = true →
        new = b.text.slice region.start region.stop := fun heq =>
      hsame (list_beq_cons (Namespace.stmts_of_beq (m := { unit with stmts := l ++ t :: r }) (n := unit) heq))
    refine File.around_stmt (t := .inside { unit with stmts := l ++ t :: r }) hstmts rfl hids hlaid hcut hstart hstop
      hequal fun hustart hustop => ?_
    refine Page.around_keptText (p := p) p.topStyle rfl hequal ?_
    refine Page.around_namespaceDecl (p := p) hunit huids hcut hustart hustop rfl horigin fun hsstart hsstop => ?_
    exact Page.around_keptText (p := p) p.stmtStyle hspan hsame (h hsids (hunit.stmts _ hsmem) hsstart hsstop)

/-! ### Members and files -/

section Places

variable {p : Page} {put : ArrayLit Expr → Member}

theorem Member.HoldsArray.origin_put {m : Member} (h : m.HoldsArray a put) (b : ArrayLit Expr) :
    Placed.origin (put b) = Placed.origin m ∧ Placed.span (put b) = Placed.span m := by
  cases h <;> exact ⟨rfl, rfl⟩

/-- A member around an array in it. -/
theorem Member.HoldsArray.around {m : Member} (h : m.HoldsArray a put) (hids : Fresh lo hi m.origins) (hlaid : m.Laid G)
    (hcut : G.Cuts p.arena.text) (hstart : p.arena.text.IsCut m.span.start) (hstop : p.arena.text.IsCut m.span.stop)
    (is : List (ArrayItem Expr)) :
    p.arena.text.Around a.itemsRegion (p.entriesText a is) m.span.start m.span.stop
      (p.member (put { a with items := is }) m) := by
  cases h with
  | property q l r i hitems hdefault =>
    have hq : q.Laid G := hlaid
    have hmem : i ∈ q.items := by simp [hitems]
    have hiids : Fresh lo hi i.origins := Fresh.of_mem (f := PropertyItem.origins) hids.right hmem
    refine Page.around_property (p := p) hitems rfl hids hlaid hcut hstart hstop
      (fun heq => Page.entriesText_of_same (PropertyItem.same_of_beq hdefault heq)) fun histart histop => ?_
    exact Page.around_propertyItem hdefault hiids (hq.2 i hmem) hcut histart histop is
  | method f d l r s hbody hstmts hexpr =>
    have hf : f.Laid G := hlaid
    obtain ⟨-, -, hlines, hstmtsLaid⟩ := hf.2.1 d hbody
    have hdids : Fresh lo hi (d.stmts.flatMap BodyStmt.origins) := by
      have hfids : Fresh lo hi f.origins := hids
      rw [Method.origins, hbody] at hfids
      exact hfids.right.right
    have hmem : BodyStmt.ret s ∈ d.stmts := by simp [hstmts]
    have hsids : Fresh lo hi s.origins := Fresh.of_mem (f := BodyStmt.origins) hdids hmem
    have hsame' : ∀ t : BodyStmt, t = .ret { s with expr := some (.array { a with items := is }) } →
        (t == .ret s) = true → p.entriesText a is = p.arena.text.slice a.itemsRegion.start a.itemsRegion.stop := by
      rintro _ rfl heq
      exact Page.entriesText_of_same (ReturnStmt.same_of_beq hexpr heq)
    have hroots := hdids.roots BodyStmt.origin_mem_origins
    have hself : ∀ b ∈ d.stmts, (b == b) = true := fun b hb => BodyStmt.beq_self (hstmtsLaid b hb)
    refine Page.around_method (p := p) hf hbody hstart hstop (fun heq => ?_) ?_
    · rw [hstmts] at heq
      exact hsame' _ rfl (list_beq_cons heq)
    · rw [hstmts] at hroots hself hlines ⊢
      refine Page.around_lineList (p := p) p.bodyStyle _ _ rfl hself hroots hlines hcut fun hl hr => ?_
      refine Page.around_keptText (p := p) p.bodyStyle rfl (hsame' _ rfl) ?_
      exact Page.around_returnStmt hexpr hsids (hstmtsLaid _ hmem) hcut hl.2.1 hr.1 is

/-- A file around an array in it. -/
theorem File.HoldsArray.around {f : File} {b : Arena} {put : ArrayLit Expr → File} (h : f.HoldsArray a put)
    (hids : Fresh lo hi f.origins) (hlaid : f.Laid G) (hcut : G.Cuts b.text) (hstart : b.text.IsCut f.span.start)
    (hstop : b.text.IsCut f.span.stop) (is : List (ArrayItem Expr)) :
    ∃ new, b.text.Around a.itemsRegion new f.span.start f.span.stop ((put { a with items := is }).print f b) := by
  let p : Page := ⟨b, .ofText (b.slice f.span)⟩
  refine ⟨p.entriesText a is, ?_⟩
  cases h with
  | inClass c k put hc hput =>
    obtain ⟨hclaid, hcids⟩ := hc.laid hids hlaid
    cases hput with
    | member l r m put hmembers hput =>
      have hmem : m ∈ c.members := by simp [hmembers]
      have hmids : Fresh lo hi m.origins := Fresh.of_mem (f := Member.origins) hcids.right hmem
      have hsame : (put { a with items := is } == m) = true →
          p.entriesText a is = p.arena.text.slice a.itemsRegion.start a.itemsRegion.stop :=
        fun heq => Page.entriesText_of_same (hput.same_of_beq heq)
      obtain ⟨horigin, hspan⟩ := hput.origin_put { a with items := is }
      have hroots := hcids.right.roots Member.origin_mem_origins
      have hself : ∀ n ∈ c.members, (n == n) = true := fun n hn => Member.beq_self (hclaid.members n hn)
      have hlines := hclaid.lines
      refine hc.around hids hlaid hcut hstart hstop (fun heq => ?_) ?_
      · rw [hmembers] at heq
        exact hsame (list_beq_cons heq)
      · rw [hmembers] at hroots hself hlines ⊢
        refine Page.around_lineList (p := p) p.memberStyle _ _ horigin hself hroots hlines hcut fun hl hr => ?_
        refine Page.around_keptText (p := p) p.memberStyle hspan hsame ?_
        exact hput.around (p := p) hmids (hclaid.members m hmem) hcut hl.2.1 hr.1 is
  | returned hole l r s hstmts hexpr =>
    have hsame : ∀ t : Stmt, t = .ret { s with expr := some (.array { a with items := is }) } → (t == .ret s) = true →
        p.entriesText a is = p.arena.text.slice a.itemsRegion.start a.itemsRegion.stop := by
      rintro _ rfl heq
      exact Page.entriesText_of_same (ReturnStmt.same_of_beq hexpr heq)
    refine File.around_unitStmt hstmts rfl rfl hids hlaid hcut hstart hstop (hsame _ rfl)
      fun hsids hslaid hsstart hsstop => ?_
    exact Page.around_returnStmt (p := p) hexpr hsids hslaid hcut hsstart hsstop is

end Places

end Graft
