import AboveFold.Proofs.Tree.Nesting
import AboveFold.Prune.Comments
import AboveFold.Prune.Embeds
import AboveFold.Prune.Media

/-!
# Thinned branches

Pruning takes out rules, at-rules, declarations, selectors and comments, and puts spaces in the place of
comments among component values; nodes of other kinds stay. `Thins` says that one list of branches comes
about like this from another, by whatever choice of nodes. It keeps branches nested, keeps empty what is
empty, and keeps media queries, embedded data and the order of rules and declarations.
-/

namespace AboveFold.Node.Kind

/-- The kinds of node that pruning takes out. -/
def isPrunable : Kind → Bool
  | rule | atRule _ | declaration _ _ | selector _ | comment _ => true
  | _ => false

/-- Rules, at-rules and declarations. -/
def isStatement (k : Kind) : Bool := k.isRule || k.isAtRule || k.isDeclaration

/-- The text of a media query. -/
def mediaQuery? : Kind → Option String
  | mediaQuery text => some text
  | _ => none

/-- Whether this is a url of large embedded data. -/
def isLargeUrl (limit : Nat) : Kind → Bool
  | url text _ => Prune.isLargeEmbed limit text
  | _ => false

variable {k : Kind}

theorem isPrunable_of_isComment (h : k.isComment = true) : k.isPrunable = true := by
  cases k <;> first | rfl | cases h

theorem isComment_of_isPrunable (h : k.isPrunable = true) (plain : k.isPlain = true) : k.isComment = true := by
  cases k <;> simp_all [isPrunable, isPlain, isComment]

theorem isPrunable_eq_false_of_isBlock (h : k.isBlock = true) : k.isPrunable = false ∧ k ≠ whitespace := by
  cases k <;> simp_all [isBlock, isPrunable]

theorem canHold_isComment (h : k.isComment = true) (c : Kind) : k.canHold c = false := by
  cases k <;> first | rfl | cases h

end AboveFold.Node.Kind

namespace AboveFold.Branch
open Cut

/-- Below a node of kind `k` the branches `bs` may become `bs'` by pruning. -/
inductive Thins : (k : Node.Kind) → (bs bs' : List Branch) → Prop
  | nil {k : Node.Kind} : Thins k [] []
  /-- A node stays, perhaps with another mark, and some of what is below it goes. -/
  | keep {k : Node.Kind} {n n' : Node} {cs cs' bs bs' : List Branch} (id : n'.id = n.id) (kind : n'.kind = n.kind)
      (below : Thins n.kind cs cs') (rest : Thins k bs bs') : Thins k (mk n cs :: bs) (mk n' cs' :: bs')
  | drop {k : Node.Kind} {b : Branch} {bs bs' : List Branch} (prunable : b.kind.isPrunable = true)
      (rest : Thins k bs bs') : Thins k (b :: bs) bs'
  /-- A space comes in the place of a comment. -/
  | space {k : Node.Kind} {b : Branch} {n : Node} {bs bs' : List Branch} (comment : b.kind.isComment = true)
      (holder : Prune.holdsComponents k = true) (blank : n.kind = .whitespace) (rest : Thins k bs bs') :
      Thins k (b :: bs) (mk n [] :: bs')

/-- A branch may become another by pruning below its top. -/
structure Thinned (b b' : Branch) : Prop where
  id : b'.id = b.id
  kind : b'.kind = b.kind
  below : Thins b.kind b.children b'.children

variable {b b' c : Branch} {bs bs' cs cs' : List Branch} {k : Node.Kind}

theorem Thinned.single (h : b.Thinned b') (k : Node.Kind) : Thins k [b] [b'] := by
  obtain ⟨n, cs⟩ := b
  obtain ⟨n', cs'⟩ := b'
  exact .keep h.id h.kind h.below .nil

theorem Thins.append (h : Thins k bs bs') (h' : Thins k cs cs') : Thins k (bs ++ cs) (bs' ++ cs') := by
  induction h with
  | nil => exact h'
  | keep id kind below _ _ ih => exact .keep id kind below (ih h')
  | drop prunable _ ih => exact .drop prunable (ih h')
  | space comment holder blank _ ih => exact .space comment holder blank (ih h')

theorem Thins.each {f : Branch → Cut} (h : ∀ b ∈ bs, Thins k [b] (f b).kept) : Thins k bs (each f bs).kept := by
  induction bs with
  | nil => exact .nil
  | cons b bs ih =>
    simp only [List.mem_cons, forall_eq_or_imp] at h
    rw [each_cons]
    exact h.1.append (ih h.2)

theorem Thinned.refl (b : Branch) : b.Thinned b := by
  induction b using induct with
  | mk n cs ih =>
    refine ⟨rfl, rfl, ?_⟩
    have same : (Cut.each (fun c => whole [c]) cs).kept = cs := by
      rw [each_eq_whole fun _ _ => rfl]
      rfl
    have below := Thins.each (k := n.kind) (f := fun c => whole [c]) fun c mem => (ih c mem).single n.kind
    rw [same] at below
    exact below

theorem Thins.refl (k : Node.Kind) (bs : List Branch) : Thins k bs bs := by
  induction bs with
  | nil => exact .nil
  | cons b bs ih => exact ((Thinned.refl b).single k).append ih

theorem Thins.eq_nil (h : Thins k [] bs') : bs' = [] := by
  cases h
  rfl

theorem Thins.trans (h : Thins k bs cs) (h' : Thins k cs cs') : Thins k bs cs' := by
  induction h generalizing cs' with
  | nil => exact h'
  | @keep k n n' ds ds' bs bs' id kind below rest ih ih' =>
    cases h' with
    | keep id' kind' below' rest' =>
      exact .keep (id'.trans id) (kind'.trans kind) (ih (kind ▸ below')) (ih' rest')
    | drop prunable rest' =>
      rw [kind_mk, kind] at prunable
      exact .drop prunable (ih' rest')
    | space comment holder blank rest' =>
      rw [kind_mk, kind] at comment
      exact .space comment holder blank (ih' rest')
  | drop prunable _ ih => exact .drop prunable (ih h')
  | @space k b n bs bs' comment holder blank rest ih =>
    cases h' with
    | keep id kind below rest' =>
      rw [below.eq_nil]
      exact .space comment holder (kind.trans blank) (ih rest')
    | drop prunable rest' =>
      rw [kind_mk, blank] at prunable
      cases prunable
    | space comment' holder' blank' rest' =>
      rw [kind_mk, blank] at comment'
      cases comment'

theorem Thinned.trans (h : b.Thinned b') (h' : b'.Thinned c) : b.Thinned c :=
  ⟨h'.id.trans h.id, h'.kind.trans h.kind, h.below.trans (h.kind ▸ h'.below)⟩

/-! ## Cuts that thin -/

/-- A plan that takes out nothing but what pruning may take out. -/
def Plan.Thins (π : Plan) : Prop :=
  ∀ above b c k, π above b = some c → Branch.Thins k [b] c.kept

theorem thins_cut {π : Plan} (thins : π.Thins) (above : List Node.Kind) (b : Branch) (k : Node.Kind) :
    Thins k [b] (cut π above b).kept := by
  induction b using induct generalizing above k with
  | mk n cs ih =>
    cases e : π above (mk n cs) with
    | some c =>
      rw [cut_of_some e]
      exact thins above _ c k e
    | none =>
      rw [cut_of_none e]
      exact .keep rfl rfl (.each fun c mem => ih c mem (n.kind :: above) n.kind) .nil

/-- What is cut below its top by such a plan. -/
theorem thinned_cutBelow {π : Plan} (thins : π.Thins) (above : List Node.Kind) (b : Branch) :
    b.Thinned (cutBelow π above b) :=
  ⟨rfl, rfl, .each fun c _ => thins_cut thins (b.kind :: above) c b.kind⟩

theorem isPrunable_of_isEmptied (h : b.isEmptied = true) : b.kind.isPrunable = true := by
  unfold Branch.isEmptied at h
  cases k : b.kind <;> rw [k] at h <;> first | rfl | cases h

theorem thins_clear (b : Branch) (k : Node.Kind) : Thins k [b] b.clear.kept := by
  induction b using induct generalizing k with
  | mk n cs ih =>
    cases emptied : (swept (mk n cs)).isEmptied with
    | true =>
      rw [clear_of_isEmptied emptied]
      have prunable : (swept (mk n cs)).kind.isPrunable = true := isPrunable_of_isEmptied emptied
      exact .drop prunable .nil
    | false =>
      rw [clear_of_not_isEmptied emptied]
      exact .keep rfl rfl (.each fun c mem => ih c mem n.kind) .nil

theorem thinned_swept (b : Branch) : b.Thinned b.swept :=
  ⟨rfl, rfl, .each fun c _ => thins_clear c b.kind⟩

/-! ## What thinning keeps -/

/-- A child of a kind that pruning neither takes out nor makes is found again. -/
theorem Thins.find? {p : Node.Kind → Bool} (fixed : ∀ k, p k = true → k.isPrunable = false ∧ k ≠ .whitespace)
    (h : Thins k bs bs') :
    bs.find? (p ·.kind) = none ∧ bs'.find? (p ·.kind) = none
      ∨ ∃ c c', bs.find? (p ·.kind) = some c ∧ bs'.find? (p ·.kind) = some c' ∧ c.Thinned c' := by
  induction h with
  | nil => exact .inl ⟨rfl, rfl⟩
  | @keep k n n' cs cs' bs bs' id kind below _ _ ih =>
    cases e : p n.kind with
    | true =>
      refine .inr ⟨mk n cs, mk n' cs', ?_, ?_, id, kind, below⟩
      · exact List.find?_cons_of_pos e
      · exact List.find?_cons_of_pos (by rw [kind_mk, kind, e])
    | false =>
      rw [List.find?_cons_of_neg (by simp [e]), List.find?_cons_of_neg (by simp [kind, e])]
      exact ih
  | @drop k b bs bs' prunable _ ih =>
    have other : p b.kind = false := by
      cases e : p b.kind with
      | true =>
        rw [(fixed _ e).1] at prunable
        cases prunable
      | false => rfl
    rw [List.find?_cons_of_neg (by simp [other])]
    exact ih
  | @space k b n bs bs' comment _ blank _ ih =>
    have prunable := Node.Kind.isPrunable_of_isComment comment
    have other : p b.kind = false := by
      cases e : p b.kind with
      | true =>
        rw [(fixed _ e).1] at prunable
        cases prunable
      | false => rfl
    have other' : p n.kind = false := by
      cases e : p n.kind with
      | true => exact absurd blank (fixed _ e).2
      | false => rfl
    rw [List.find?_cons_of_neg (by simp [other]), List.find?_cons_of_neg (by simp [other'])]
    exact ih

/-- What is not a comment among the children of a rule, block or list was there before. -/
theorem Thins.any_not_comment (h : Thins k bs bs') (structural : Prune.holdsComponents k = false)
    (some : bs'.any (fun c => !c.kind.isComment) = true) : bs.any (fun c => !c.kind.isComment) = true := by
  induction h with
  | nil => exact some
  | @keep k n n' cs cs' bs bs' id kind _ _ _ ih =>
    rw [List.any_cons, Bool.or_eq_true] at some ⊢
    refine some.imp (fun solid => ?_) (ih structural)
    simpa only [kind_mk, kind] using solid
  | drop _ _ ih => rw [List.any_cons, ih structural some, Bool.or_true]
  | space _ holder => rw [structural] at holder; cases holder

theorem Thinned.hasContent (h : b.Thinned b') (block : b.kind.isBlock = true) (some : b'.hasContent = true) :
    b.hasContent = true := by
  refine h.below.any_not_comment ?_ some
  cases k : b.kind <;> first | rfl | (rw [k] at block; cases block)

/-- What is empty stays empty. -/
theorem Thinned.isEmptied (h : b.Thinned b') (emptied : b.isEmptied = true) : b'.isEmptied = true := by
  have block : b.block? = none ∧ b'.block? = none
      ∨ ∃ c c', b.block? = some c ∧ b'.block? = some c' ∧ c.Thinned c' :=
    h.below.find? fun k block => Node.Kind.isPrunable_eq_false_of_isBlock block
  have list : b.selectorList? = none ∧ b'.selectorList? = none
      ∨ ∃ c c', b.selectorList? = some c ∧ b'.selectorList? = some c' ∧ c.Thinned c' :=
    h.below.find? (p := (· = .selectorList)) fun k list => by simp_all [Node.Kind.isPrunable]
  have content {c c' : Branch} (found : b.block? = some c) (thinned : c.Thinned c') (some : c'.hasContent = true) :
      c.hasContent = true := by
    have block := List.find?_some found
    exact thinned.hasContent block some
  unfold Branch.isEmptied at emptied ⊢
  rw [h.kind]
  cases k : b.kind with
  | rule =>
    simp only [k] at emptied ⊢
    unfold isEmptyRule at emptied ⊢
    rcases list with ⟨none, none'⟩ | ⟨l, l', found, found', thinned⟩
    · simp [none']
    · rcases block with ⟨none, none'⟩ | ⟨c, c', found'', found''', thinned'⟩
      · simp [none']
      · simp only [found, found', found'', found''', Option.any_some] at emptied ⊢
        cases some : c'.hasContent with
        | false => simp
        | true =>
          rw [content found'' thinned' some] at emptied
          have nothing : l.children = [] := by simpa using emptied
          have := thinned.below
          rw [nothing] at this
          simp [this.eq_nil]
  | atRule name =>
    simp only [k] at emptied ⊢
    unfold isEmptyAtRule at emptied ⊢
    rcases block with ⟨none, none'⟩ | ⟨c, c', found, found', thinned⟩
    · simp [none] at emptied
    · simp only [found, found', Option.any_some] at emptied ⊢
      cases some : c'.hasContent with
      | false => rfl
      | true =>
        rw [content found thinned some] at emptied
        cases emptied
  | _ => simp [k] at emptied

/-- Thinned branches are nested. -/
theorem Thins.nested (h : Thins k bs bs') (nested : ∀ b ∈ bs, k.canHold b.kind = true ∧ b.Nested) :
    ∀ b ∈ bs', k.canHold b.kind = true ∧ b.Nested := by
  induction h with
  | nil => exact nested
  | keep id kind below rest ih ih' =>
    simp only [List.mem_cons, forall_eq_or_imp] at nested ⊢
    obtain ⟨⟨holds, top⟩, later⟩ := nested
    refine ⟨⟨?_, nested_mk.2 fun c mem => ?_⟩, ih' later⟩
    · simpa only [kind_mk, kind] using holds
    · rw [kind]
      exact ih (nested_mk.1 top) c mem
  | drop _ _ ih => exact ih fun b mem => nested b (List.mem_cons_of_mem _ mem)
  | @space k b n bs bs' _ holder blank _ ih =>
    intro c mem
    rcases List.mem_cons.1 mem with rfl | mem
    · refine ⟨?_, nested_mk.2 (by simp)⟩
      rw [kind_mk, blank]
      cases k <;> first | rfl | cases holder
    · exact ih (fun b mem => nested b (List.mem_cons_of_mem _ mem)) c mem

/-- Among component values nothing comes but spaces. -/
theorem Thins.isPlain (h : Thins k bs bs') (plain : ∀ b ∈ bs, b.kind.isPlain = true) :
    ∀ b ∈ bs', b.kind.isPlain = true := by
  induction h with
  | nil => exact plain
  | keep id kind _ _ _ ih =>
    simp only [List.mem_cons, forall_eq_or_imp, kind_mk] at plain ⊢
    exact ⟨kind ▸ plain.1, ih plain.2⟩
  | drop _ _ ih => exact ih fun b mem => plain b (List.mem_cons_of_mem _ mem)
  | space _ _ blank _ ih =>
    simp only [List.mem_cons, forall_eq_or_imp, kind_mk, blank] at plain ⊢
    exact ⟨rfl, ih plain.2⟩

/-- Comments go, and do not come. -/
theorem Thins.isComment (h : Thins k bs bs') (none : ∀ b ∈ preorderAll bs, b.kind.isComment = false) :
    ∀ b ∈ preorderAll bs', b.kind.isComment = false := by
  induction h with
  | nil => exact none
  | keep id kind _ _ ih ih' =>
    simp only [preorderAll_cons, preorder, List.mem_append, List.mem_cons, or_imp, forall_and, forall_eq,
      kind_mk] at none ⊢
    exact ⟨⟨kind ▸ none.1.1, ih none.1.2⟩, ih' none.2⟩
  | drop _ _ ih =>
    refine ih fun b mem => none b ?_
    rw [preorderAll_cons]
    exact List.mem_append_right _ mem
  | space comment _ _ _ _ =>
    rw [none _ (mem_preorderAll.2 ⟨_, List.mem_cons_self .., self_mem_preorder _⟩)] at comment
    cases comment

theorem Thinned.nested (h : b.Thinned b') (nested : b.Nested) : b'.Nested := by
  obtain ⟨n, cs⟩ := b
  obtain ⟨n', cs'⟩ := b'
  have kind : n'.kind = n.kind := h.kind
  rw [nested_mk, kind]
  exact h.below.nested (nested_mk.1 nested)

/-- Media queries stay. -/
theorem Thins.filterMap_kind {α : Type} {f : Node.Kind → Option α}
    (other : ∀ k, k.isPrunable = true ∨ k = .whitespace → f k = none) (h : Thins k bs bs') :
    bs'.filterMap (f ·.kind) = bs.filterMap (f ·.kind) := by
  induction h with
  | nil => rfl
  | keep id kind _ _ _ ih => simp only [List.filterMap_cons, kind_mk, kind, ih]
  | drop prunable _ ih => simp only [List.filterMap_cons, other _ (.inl prunable), ih]
  | space comment _ blank _ ih =>
    have prunable := Node.Kind.isPrunable_of_isComment comment
    simp only [List.filterMap_cons, kind_mk, other _ (.inl prunable), other _ (.inr blank), ih]

theorem Thinned.mediaQueries (h : b.Thinned b') : b'.mediaQueries = b.mediaQueries := by
  have prelude : b.prelude? = none ∧ b'.prelude? = none
      ∨ ∃ c c', b.prelude? = some c ∧ b'.prelude? = some c' ∧ c.Thinned c' :=
    h.below.find? (p := (· = .prelude)) fun k prelude => by simp_all [Node.Kind.isPrunable]
  change ((b'.prelude?.map children).getD []).filterMap (·.kind.mediaQuery?)
    = ((b.prelude?.map children).getD []).filterMap (·.kind.mediaQuery?)
  rcases prelude with ⟨none, none'⟩ | ⟨c, c', found, found', thinned⟩
  · rw [none, none']
  · rw [found, found']
    refine thinned.below.filterMap_kind (f := Node.Kind.mediaQuery?) ?_
    rintro k (h | rfl)
    · cases k <;> first | rfl | cases h
    · rfl

theorem Thinned.isUsefulMedia (h : b.Thinned b') : b'.isUsefulMedia = b.isUsefulMedia := by
  unfold Branch.isUsefulMedia
  rw [h.kind, h.mediaQueries]

/-- Among component values nothing goes but comments, and these hold nothing. -/
theorem Thins.any_preorderAll {p : Node.Kind → Bool} (h : Thins k bs bs')
    (trivia : ∀ k, k.isComment = true ∨ k = .whitespace → p k = false) (nested : ∀ b ∈ bs, b.Nested)
    (plain : ∀ b ∈ bs, b.kind.isPlain = true) :
    (preorderAll bs').any (p ·.kind) = (preorderAll bs).any (p ·.kind) := by
  have comment {c : Branch} (nested : c.Nested) (comment : c.kind.isComment = true) :
      c.preorder.any (p ·.kind) = false := by
    obtain ⟨n, cs⟩ := c
    rw [kind_mk] at comment
    cases cs with
    | nil => simp [preorder, trivia _ (.inl comment)]
    | cons d ds =>
      have holds := (nested_mk.1 nested d (List.mem_cons_self ..)).1
      rw [Node.Kind.canHold_isComment comment] at holds
      cases holds
  induction h with
  | nil => rfl
  | @keep k n n' cs cs' bs bs' id kind _ _ ih ih' =>
    simp only [List.mem_cons, forall_eq_or_imp] at nested plain
    have inside := nested_mk.1 nested.1
    have below := ih (fun c mem => (inside c mem).2)
      fun c mem => Node.Kind.isPlain_of_canHold (.inl plain.1) (inside c mem).1
    simp only [preorderAll_cons, preorder, List.any_append, List.any_cons, below, ih' nested.2 plain.2, kind_mk, kind]
  | @drop k b bs bs' prunable _ ih =>
    simp only [List.mem_cons, forall_eq_or_imp] at nested plain
    rw [preorderAll_cons, List.any_append, comment nested.1 (Node.Kind.isComment_of_isPrunable prunable plain.1),
      Bool.false_or]
    exact ih nested.2 plain.2
  | @space k b n bs bs' isComment _ blank _ ih =>
    simp only [List.mem_cons, forall_eq_or_imp] at nested plain
    have before := comment nested.1 isComment
    have after := trivia n.kind (.inr blank)
    simp [preorder, before, after, ih nested.2 plain.2]

/-- The data embedded in a declaration stays. -/
theorem Thinned.hasLargeEmbed (h : b.Thinned b') (nested : b.Nested) (declaration : b.kind.isDeclaration = true)
    (limit : Nat) : b'.hasLargeEmbed limit = b.hasLargeEmbed limit := by
  obtain ⟨n, cs⟩ := b
  obtain ⟨n', cs'⟩ := b'
  have kind : n'.kind = n.kind := h.kind
  have inside := nested_mk.1 nested
  have below : Thins n.kind cs cs' := h.below
  unfold Branch.hasLargeEmbed
  change (preorder _).any (·.kind.isLargeUrl limit) = (preorder _).any (·.kind.isLargeUrl limit)
  have same := below.any_preorderAll (p := Node.Kind.isLargeUrl limit) ?_ (fun c mem => (inside c mem).2)
    fun c mem => Node.Kind.isPlain_of_canHold (.inr (.inl declaration)) (inside c mem).1
  · simp only [preorder, List.any_cons, same, kind_mk, kind]
  · rintro k (comment | rfl)
    · cases k <;> first | rfl | cases comment
    · rfl

/-! ## The order of rules and declarations -/

/-- What is said of a rule, at-rule or declaration. -/
def statement? (b : Branch) : Option (Nat × Node.Kind) :=
  if b.kind.isStatement then some (b.id, b.kind) else none

/-- The rules, at-rules and declarations of a branch, in document order. -/
def statements (b : Branch) : List (Nat × Node.Kind) :=
  b.preorder.filterMap statement?

theorem Thins.statements (h : Thins k bs bs') :
    ((preorderAll bs').filterMap statement?).Sublist ((preorderAll bs).filterMap statement?) := by
  induction h with
  | nil => exact List.Sublist.refl _
  | @keep k n n' cs cs' bs bs' id kind _ _ ih ih' =>
    have same : statement? (mk n' cs') = statement? (mk n cs) := by
      have kind : (mk n' cs').kind = (mk n cs).kind := kind
      have id : (mk n' cs').id = (mk n cs).id := id
      rw [statement?, statement?, kind, id]
    simp only [preorderAll_cons, preorder, List.cons_append, List.filterMap_cons, List.filterMap_append, same]
    cases statement? (mk n cs) with
    | none => exact ih.append ih'
    | some s => exact (ih.append ih').cons_cons s
  | drop _ _ ih =>
    rw [preorderAll_cons, List.filterMap_append]
    exact ih.trans (List.sublist_append_right _ _)
  | @space k b n bs bs' _ _ blank _ ih =>
    have other : statement? (mk n []) = none := by
      rw [statement?, kind_mk, blank]
      rfl
    simp only [preorderAll_cons, preorder, preorderAll_nil, List.singleton_append, List.filterMap_cons, other,
      List.filterMap_append]
    exact ih.trans (List.sublist_append_right _ _)

/-- The rules and declarations that stay keep their order. -/
theorem Thinned.statements (h : b.Thinned b') : b'.statements.Sublist b.statements := by
  have := (h.single .styleSheet).statements
  simp only [preorderAll_cons, preorderAll_nil, List.append_nil] at this
  exact this

end AboveFold.Branch
