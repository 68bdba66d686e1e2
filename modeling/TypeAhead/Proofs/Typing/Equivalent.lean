/-
  TypeAhead.Proofs.Typing.Equivalent — THE ORDER OF DECLARATIONS DOES NOT MATTER.

  Typing asks its registry for conversions, overloads, members and names, and all of
  that comes down to what names mean and which types are exposed.  So a walk does the
  same, to the last fault, over any registry in which names mean the same.  What is
  analysed and completed is typed and then looked up in the same way, so of two models
  that list their types in another order nothing else differs.

      Equivalent.unify, selectOverload, …   conversions and overloads
      equivalent_run                        every rule, with every budget
      declaration_order                     models with their types in another order
-/
import TypeAhead.Proofs.Types.Equivalent
import TypeAhead.Completion

namespace TypeAhead

/-! ## §1. Operands. -/

namespace Registry.Equivalent

variable {r r' : Registry}

/-- Which operands convert to a type is a matter of the types that it is derived from. -/
theorem converts (h : r.Equivalent r') : r.converts = r'.converts := by
  funext a target
  simp only [Registry.converts, h.isAssignable]

theorem casts (h : r.Equivalent r') : r.casts = r'.casts := by
  funext a target
  simp only [Registry.casts, h.converts, h.isAssignable]

/-- Two operands have the same type in common. -/
theorem unify (h : r.Equivalent r') : r.unify = r'.unify := by
  funext a b position
  simp only [Registry.unify, h.converts]

/-- All elements of an array have the same type in common. -/
theorem unifyAll (h : r.Equivalent r') (position : Nat) (common : Option Operand) (elements : List Operand) :
    r.unifyAll position common elements = r'.unifyAll position common elements := by
  induction elements generalizing common with
  | nil => rfl
  | cons a rest ih => cases common <;> simp only [Registry.unifyAll, h.unify, ih]

theorem equatable (h : r.Equivalent r') : r.equatable = r'.equatable := by
  funext left right
  simp only [Registry.equatable, h.isAssignable]

/-- A call is compared with the parameters of a method by conversions. -/
theorem applicability (h : r.Equivalent r') (parameters : List Parameter) (arguments : List Operand) :
    r.applicability parameters arguments = r'.applicability parameters arguments := by
  induction parameters generalizing arguments with
  | nil => cases arguments <;> rfl
  | cons parameter parameters ih =>
    cases arguments with
    | nil => rfl
    | cons a arguments => simp only [Registry.applicability, h.get, h.converts, ih]

/-- The same method is selected for the same arguments. -/
theorem selectOverload {α : Type} (h : r.Equivalent r') (candidates : List (List Parameter × α))
    (arguments : List Operand) :
    r.selectOverload candidates arguments = r'.selectOverload candidates arguments := by
  simp only [Registry.selectOverload, h.applicability]

theorem construct (h : r.Equivalent r') : r.construct = r'.construct := by
  funext target arguments position
  simp only [Registry.construct, h.selectOverload, h.casts]

/-- The same operands may stand on the two sides of an operator. -/
theorem operate (h : r.Equivalent r') : r.operate = r'.operate := by
  funext o token left right
  cases o <;> simp only [Registry.operate, Registry.operation?, h.equatable]

theorem contained (h : r.Equivalent r') : r.contained = r'.contained := by
  funext token left element
  simp only [Registry.contained, h.equatable]

/-- An operator of sequences comes to the same type. -/
theorem result (h : r.Equivalent r') (o : SequenceOperator) : o.result r = o.result r' := by
  funext name element position arguments
  cases o <;> simp only [SequenceOperator.result, SequenceOperator.requireConversion, h.converts]

end Registry.Equivalent

/-! ## §2. Rules. -/

namespace Typing

/-- The setting with another registry. -/
def Setting.withRegistry (s : Setting) (r : Registry) : Setting := { s with registry := r }

namespace Rule

variable {s : Setting} {r : Registry} {call : Rule → Typer Operand}

section

variable (h : s.registry.Equivalent r)

include h

/-- A call of an operator of sequences looks up the type of the result. -/
theorem equivalent_sequenceCall : sequenceCall (s.withRegistry r) call = sequenceCall s call := by
  funext o element name
  simp only [sequenceCall, Setting.withRegistry, ← h.result]

theorem equivalent_mentioned : mentioned (s.withRegistry r) = mentioned s := by
  funext name position
  simp only [mentioned, Setting.withRegistry, ← h.get]

/-- The call of a method selects an overload. -/
theorem equivalent_methodCall : methodCall (s.withRegistry r) call = methodCall s call := by
  funext owner methods name position
  simp only [methodCall, equivalent_mentioned h]
  simp only [Setting.withRegistry, ← h.selectOverload]

theorem equivalent_sequenceOperator? : sequenceOperator? (s.withRegistry r) = sequenceOperator? s := by
  funext owner name
  simp only [sequenceOperator?, Setting.withRegistry, h.elementType?]

/-- A member is found in the same type. -/
theorem equivalent_memberAccess : memberAccess (s.withRegistry r) call = memberAccess s call := by
  funext owner binding
  simp only [memberAccess, equivalent_sequenceOperator? h, equivalent_sequenceCall h,
    equivalent_methodCall h, equivalent_mentioned h]
  simp only [Setting.withRegistry, ← h.findMethods, h.findMember?]

theorem equivalent_elementAccess : elementAccess (s.withRegistry r) call = elementAccess s call := by
  funext owner
  simp only [elementAccess, equivalent_mentioned h]
  simp only [Setting.withRegistry, ← h.findIndexers, ← h.selectOverload]

/-- The name of a type is looked for word by word, as far as namespaces go. -/
theorem equivalent_qualifiedType? (qualified : String) (c : Cursor) (budget : Nat) :
    qualifiedType? (s.withRegistry r) qualified c budget = qualifiedType? s qualified c budget := by
  induction budget generalizing qualified c with
  | zero => rfl
  | succ budget ih =>
    simp only [qualifiedType?, ih]
    simp only [Setting.withRegistry, h.findAccessible?, ← h.isNamespace]

theorem equivalent_wordType? : wordType? (s.withRegistry r) = wordType? s := by
  funext name
  simp only [wordType?, Setting.withRegistry, ← h.get, h.findAccessible?]

/-- The name of a type is read to the same token. -/
theorem equivalent_typeName : typeName (s.withRegistry r) = typeName s := by
  simp only [typeName, equivalent_wordType? h, equivalent_qualifiedType? h]
  simp only [Setting.withRegistry, ← h.isNamespace]

theorem equivalent_typeAccess : typeAccess (s.withRegistry r) call = typeAccess s call := by
  funext t position
  simp only [typeAccess, equivalent_memberAccess h]
  simp only [Setting.withRegistry, ← h.construct]

theorem equivalent_hasMember : hasMember (s.withRegistry r) = hasMember s := by
  funext t name
  simp only [hasMember, equivalent_sequenceOperator? h]
  simp only [Setting.withRegistry, h.findMember?, ← h.findMethods]

theorem equivalent_registered? : registered? (s.withRegistry r) = registered? s := by
  funext name
  simp only [registered?, Setting.withRegistry, ← h.get, h.findAccessible?]

theorem equivalent_choice : choice (s.withRegistry r) call = choice s call := by
  simp only [choice, Setting.withRegistry, ← h.unify]

theorem equivalent_nullPropagation :
    nullPropagation (s.withRegistry r) call = nullPropagation s call := by
  simp only [nullPropagation, Setting.withRegistry, ← h.unify]

/-- What `new` makes of its members. -/
theorem equivalent_createdBody : createdBody (s.withRegistry r) call = createdBody s call := by
  funext target position
  simp only [createdBody, createdMembers, Setting.withRegistry, ← h.unifyAll]

theorem equivalent_creation : creation (s.withRegistry r) call = creation s call := by
  simp only [creation, equivalent_registered? h, equivalent_createdBody h]
  simp only [Setting.withRegistry, ← h.construct]

/-- A word means the same. -/
theorem equivalent_word : word (s.withRegistry r) call = word s call := by
  have hit : (s.withRegistry r).it = s.it := by
    funext scopes
    cases scopes <;> rfl
  simp only [word, name, hit, equivalent_choice h, equivalent_nullPropagation h, equivalent_creation h,
    equivalent_typeName h, equivalent_typeAccess h, equivalent_hasMember h, equivalent_memberAccess h]

theorem equivalent_text : text (s.withRegistry r) call = text s call := by
  simp only [text, equivalent_registered? h]
  simp only [Setting.withRegistry, ← h.construct]

/-- An operand by itself has the same type. -/
theorem equivalent_primary : primary (s.withRegistry r) call = primary s call := by
  simp only [primary, equivalent_word h, equivalent_text h]

theorem equivalent_attached : attached (s.withRegistry r) call = attached s call := by
  simp only [attached, equivalent_memberAccess h, equivalent_elementAccess h]

/-- Operands are put together in the same way. -/
theorem equivalent_chain : chain (s.withRegistry r) call = chain s call := by
  funext rule isOperator
  simp only [chain, Setting.withRegistry, ← h.operate]

theorem equivalent_container : container (s.withRegistry r) call = container s call := by
  funext left
  simp only [container, containerList, Setting.withRegistry, ← h.contained, h.elementType?]

/-- The bodies of all rules, given their calls. -/
theorem equivalent_body : body (s.withRegistry r) call = body s call := by
  funext rule
  cases rule <;> simp only [body, equivalent_chain h, equivalent_container h, equivalent_primary h,
    equivalent_attached h]
  all_goals simp only [Setting.withRegistry, ← h.unify, ← h.converts]

/-- **Every rule does the same over a registry in which names mean the same.** -/
theorem equivalent_run (budget : Nat) : run (s.withRegistry r) budget = run s budget := by
  induction budget with
  | zero => rfl
  | succ budget ih =>
    funext rule
    simp only [run, ih, equivalent_body h]

end

end Rule

/-! ## §3. Texts. -/

section

variable {s : Setting} {r : Registry} (h : s.registry.Equivalent r)

include h

/-- **An expression has the same type**, or the same fault, in both registries. -/
theorem Setting.equivalent_typeOf : (s.withRegistry r).typeOf = s.typeOf := by
  funext cursor
  unfold typeOf
  rw [Rule.equivalent_run h]

theorem Setting.equivalent_compile : (s.withRegistry r).compile = s.compile := by
  funext text
  simp only [compile, s.equivalent_typeOf h]

/-- What a fragment stands for. -/
theorem Setting.equivalent_resolve : (s.withRegistry r).resolve = s.resolve := by
  funext fragment
  simp only [resolve, compileRetrying, s.equivalent_compile h]
  rfl

theorem Setting.equivalent_analyze : (s.withRegistry r).analyze = s.analyze := by
  funext text caret
  simp only [analyze, s.equivalent_resolve h]
  rfl

/-- What is listed for a type. -/
theorem Setting.equivalent_itemsOf : Completion.itemsOf (s.withRegistry r) = Completion.itemsOf s := by
  have hnames : (s.withRegistry r).registry.memberNames = s.registry.memberNames := h.memberNames.symm
  funext listing resolution
  unfold Completion.itemsOf Completion.memberItems
  rw [hnames]
  rfl

/-- **The same list is offered at every caret.** -/
theorem Setting.equivalent_complete : (s.withRegistry r).complete = s.complete := by
  funext listing text caret
  simp only [complete, s.equivalent_analyze h, s.equivalent_itemsOf h]

end

end Typing

/-! ## §4. Models. -/

open Registry in
/-- **The order in which a model declares its types does not matter.**  With its types in another order a
model is loaded if and only if it was, with the same context; every name means the same, types have the
same bases, interfaces and members, and the same types may be named.  Every text has the same type or the
same failure as an expression, and at every caret the same analysis and the same completion, whatever the
context and the settings. -/
theorem declaration_order (m : TypeModel) (types : List TypeDef) (hperm : m.types.Perm types) :
    ((∃ loaded, m.load = .ok loaded) ↔ ∃ loaded, TypeModel.load { m with types } = .ok loaded) ∧
    ∀ before after, m.load = .ok before → TypeModel.load { m with types } = .ok after →
      after.context = before.context ∧
      (∀ name, after.registry.get? name = before.registry.get? name) ∧
      (∀ t, after.registry.baseChain t = before.registry.baseChain t ∧
        after.registry.interfaces t = before.registry.interfaces t ∧
        after.registry.lookupChain t = before.registry.lookupChain t) ∧
      (∀ name context,
        after.registry.findAccessible? name context = before.registry.findAccessible? name context ∧
        after.registry.isNamespace name context = before.registry.isNamespace name context) ∧
      ∀ parsing context text,
        let s : Typing.Setting := { registry := before.registry, parsing, context }
        let s' : Typing.Setting := { registry := after.registry, parsing, context }
        s'.compile text = s.compile text ∧
          ∀ caret, s'.analyze text caret = s.analyze text caret ∧
            ∀ listing, s'.complete listing text caret = s.complete listing text caret := by
  constructor
  · constructor
    -- Permuting back gives the other direction.
    · intro ⟨_, h⟩
      obtain ⟨loaded, h, -⟩ := TypeModel.load_perm hperm h
      exact ⟨loaded, h⟩
    · intro ⟨_, h⟩
      obtain ⟨loaded, h, -⟩ := TypeModel.load_perm (m := { m with types }) hperm.symm h
      exact ⟨loaded, h⟩
  · intro before after hbefore hafter
    obtain ⟨loaded, hloaded, hcontext, h⟩ := TypeModel.load_perm hperm hbefore
    -- A model is loaded in one way only.
    cases hafter.symm.trans hloaded
    refine ⟨hcontext, ?_, ?_, ?_, ?_⟩
    · intro name
      rw [h.get]
    · intro t
      rw [h.baseChain, h.interfaces, h.lookupChain]
      exact ⟨rfl, rfl, rfl⟩
    · intro name context
      rw [h.findAccessible?, h.isNamespace]
      exact ⟨rfl, rfl⟩
    · intro parsing context text s s'
      -- The second setting is the first one over the other registry.
      have hsetting : s' = s.withRegistry after.registry := rfl
      rw [hsetting, s.equivalent_compile h, s.equivalent_analyze h, s.equivalent_complete h]
      exact ⟨rfl, fun _ => ⟨rfl, fun _ => rfl⟩⟩

/-- An order and the customer who made it. -/
def orders : TypeModel where
  context := some "Shop.Order"
  types :=
    [{ name := "Order", space := "Shop", properties := [⟨"Customer", "Shop.Customer", false⟩] },
     { name := "Customer", space := "Shop", properties := [⟨"Name", Known.string, false⟩] }]

/-- The customer may be declared before the order. -/
theorem declaration_order_of_orders :
    orders.types.Perm orders.types.reverse ∧
    ∃ before after, orders.load = .ok before ∧
      TypeModel.load { orders with types := orders.types.reverse } = .ok after ∧
      before.registry.custom ≠ after.registry.custom ∧ after.context = before.context ∧
      after.registry.lookupChain = before.registry.lookupChain := by
  have hperm : orders.types.Perm orders.types.reverse := orders.types.reverse_perm.symm
  obtain ⟨hloads, hsame⟩ := declaration_order orders _ hperm
  have hbefore : orders.load = .ok ⟨.performAll .empty (orders.types.map .register), orders.types.head?⟩ := by rfl
  have hafter : TypeModel.load { orders with types := orders.types.reverse } =
      .ok ⟨.performAll .empty (orders.types.reverse.map .register), orders.types.head?⟩ := by rfl
  obtain ⟨hcontext, -, hchains, -⟩ := hsame _ _ hbefore hafter
  refine ⟨hperm, _, _, hbefore, hafter, by decide +kernel, hcontext, ?_⟩
  funext t
  exact (hchains t).2.2

end TypeAhead
