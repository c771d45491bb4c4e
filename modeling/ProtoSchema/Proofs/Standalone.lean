import ProtoSchema.Proofs.Chains

/-!
# Messages by themselves

What is around a message matters to its schema in two ways only: a message that it reaches may not
be around it, and without enums of its own it is seen with those in scope
(`Conversion.messageSchema_congr`). So a field that embeds a message comes to what this message
comes to by itself, with the enums in scope made visible to it if it has none. Where the message by
itself succeeds, the field fails only when a message around it is reached from there
(`Conversion.fieldSchema_eq_ok_iff_message`). With absolute names inside, what the message comes to
is the same from every package (`Conversion.NamesAbsolutely.message_eq`).
-/

namespace ProtoSchema

/-- The enums around that are visible to a message: all of them, unless it has its own. -/
def Message.visibleWithin (m : Message) (scope : List EnumType) : List EnumType :=
  if m.enums = [] then scope else []

/-- A message by itself, to which these are visible, is seen with the same enums as inside. -/
theorem Message.outerScope_visibleWithin (m : Message) (scope : List EnumType) :
    m.outerScope (m.visibleWithin scope) = m.scopeWithin scope := by
  rw [outerScope, visibleWithin, scopeWithin]
  split
  · next hnone => rw [hnone, List.nil_append]
  · rw [List.append_nil]

namespace Conversion

variable {c c' : Conversion} {path path' : List Declaration} {scope : List EnumType}
  {d target : Declaration} {f : Field}

/-! ## What is around

The condition on the paths is on what can be reached only. So it is kept on the way inwards: each
message on the way is put on both paths, and from a message inside not more is reached than from the
one around it.
-/

/-- **A message comes to the same in two surroundings** with the same enums in scope, if its names
mean the same in both, and the messages that it reaches are around it in both or in neither. The
condition is kept on the way inwards, where both paths get one message more. -/
theorem messageSchema_congr (hpolicy : c'.policy = c.policy) (path : List Declaration)
    (d : Declaration) : c.ReadsAlike c' d → ∀ path',
      (∀ e, c.Reaches d e → (e ∈ path ↔ e ∈ path')) → ∀ scope,
        (c.messageSchema path scope d).result = (c'.messageSchema path' scope d).result := by
  refine c.induction (motive := fun path d => c.ReadsAlike c' d → ∀ path',
    (∀ e, c.Reaches d e → (e ∈ path ↔ e ∈ path')) →
      ∀ scope, (c.messageSchema path scope d).result = (c'.messageSchema path' scope d).result)
    (fun path d ih hreads path' haround scope => ?_) path d
  have hfields : List.Forall₂ (fun f g => (c.fieldSchema (d :: path) scope f).result =
      (c'.fieldSchema (d :: path') scope g).result) d.message.fields d.message.fields := by
    refine List.forall₂_same.mpr fun f hmem => ?_
    -- what a field embeds reaches what is reached from here, and now this message is around it too
    have haround' : ∀ target, c.Embeds f target → ∀ e, c.Reaches target e →
        (e ∈ d :: path ↔ e ∈ d :: path') := by
      intro target hf e he
      rw [List.mem_cons, List.mem_cons, haround e (.head ⟨f, hmem, hf⟩ he)]
    have hpath : ∀ target target', c.Embeds f target → target = target' →
        (target ∈ d :: path ↔ target' ∈ d :: path') := by
      rintro target _ hf rfl
      exact haround' target hf target .refl
    rcases fieldSchema_cases hpolicy (fun hf => .of_eq (hreads d .refl f hmem hf)) hpath with
      hsame | ⟨target, _, hf, hseen, hf', hseen', rfl⟩
    · exact hsame
    · have hrefers : c.Refers d target := ⟨f, hmem, hf⟩
      rw [result_fieldSchema_of_embeds hf hseen, result_fieldSchema_of_embeds hf' hseen', hpolicy,
        ih f target hf hseen (hreads.refers hrefers) _ (haround' target hf)]
  rw [result_messageSchema, result_messageSchema, hpolicy,
    mapM_eq_of_forall₂ hfields fun _ _ h => h]

/-- Nothing around a message that succeeds is reached from it. -/
theorem Sound.not_reaches (h : c.Sound path d) (hpath : d ∉ path) :
    ∀ e ∈ path, ¬ c.Reaches d e := by
  intro e he hreaches
  rcases Relation.reflTransGen_iff_eq_or_transGen.mp hreaches with rfl | htrans
  · exact hpath he
  · exact h.not_mem htrans (List.mem_cons_of_mem d he)

/-! ## By itself

By itself a message is converted on the empty path. So it is in the surroundings that it shares with
every path on which nothing lies that it reaches.
-/

/-- Inside messages that it does not reach, a message comes to what it comes to by itself. -/
theorem messageSchema_eq_message (hpath : ∀ e ∈ path, ¬ c.Reaches d e) :
    (c.messageSchema path (d.message.scopeWithin scope) d).result =
      (c.message d (d.message.visibleWithin scope)).result := by
  rw [message, Message.outerScope_visibleWithin]
  refine messageSchema_congr rfl path d (fun _ _ _ _ _ => rfl) [] (fun e he => ?_) _
  exact ⟨fun hmem => absurd he (hpath e hmem), fun hmem => absurd hmem List.not_mem_nil⟩

/-- A field that embeds a message succeeds exactly where the message by itself does and reaches
nothing around it, and then it comes to a node around the message by itself. -/
theorem fieldSchema_eq_ok_iff_message (hf : c.Embeds f target) {n : Schema} :
    (c.fieldSchema path scope f).result = .ok n ↔
      ∃ t, (c.message target (target.message.visibleWithin scope)).result = .ok t ∧
        (∀ e ∈ path, ¬ c.Reaches target e) ∧ n = f.ofMessage c.policy t := by
  constructor
  · intro hn
    obtain ⟨hpath, t, ht, rfl⟩ := exists_messageSchema_of_embeds hf hn
    have hsound : c.Sound path target := (c.messageSchema_succeeds_iff path _ target).mp ⟨t, ht⟩
    have hout := hsound.not_reaches hpath
    exact ⟨t, (messageSchema_eq_message hout).symm.trans ht, hout, rfl⟩
  · rintro ⟨t, ht, hout, rfl⟩
    have hpath : target ∉ path := fun hmem => hout target hmem .refl
    rw [result_fieldSchema_of_embeds hf hpath, messageSchema_eq_message hout, ht]
    rfl

/-- With absolute names a message comes to the same from every package. -/
theorem NamesAbsolutely.message_eq (h : c.NamesAbsolutely d) (package : PackageId)
    (visible : List EnumType) :
    ((⟨c.registry, package, c.policy⟩ : Conversion).message d visible).result =
      (c.message d visible).result :=
  have hpolicy : (⟨c.registry, package, c.policy⟩ : Conversion).policy = c.policy := rfl
  (messageSchema_congr hpolicy [] d (h.readsAlike package) [] (fun _ _ => .rfl) _).symm

/-- **Embedding is conversion by itself.** Let a field embed a message. Inside any messages and with
any enums in scope, the field succeeds exactly where the message by itself does, with the enums in
scope visible to it if it has none, and reaches none of the messages around; then the field comes to
a node around what the message comes to by itself. So it is along every chain of a conversion that
succeeds. If the names that the message reaches are absolute, then what it comes to by itself is the
same from every package. -/
theorem embedding_standalone {f : Field} {target : Declaration} (hf : c.Embeds f target) :
    (∀ path scope n, (c.fieldSchema path scope f).result = .ok n ↔
      ∃ t, (c.message target (target.message.visibleWithin scope)).result = .ok t ∧
        (∀ e ∈ path, ¬ c.Reaches target e) ∧ n = f.ofMessage c.policy t) ∧
    (∀ (d : Declaration) (visible : List EnumType) (s : Schema),
      (c.message d visible).result = .ok s → ∀ fields messages e,
        c.Chain d fields messages e → f ∈ e.message.fields →
          ∃ n t, c.ComesTo d visible s fields messages f n ∧
            (c.message target (target.message.visibleWithin
              (scopeAlong (d.message.outerScope visible) messages))).result = .ok t ∧
            f.Surrounds n t) ∧
    (c.NamesAbsolutely target → ∀ package visible,
      ((⟨c.registry, package, c.policy⟩ : Conversion).message target visible).result =
        (c.message target visible).result) := by
  refine ⟨fun path scope n => fieldSchema_eq_ok_iff_message hf, ?_,
    NamesAbsolutely.message_eq⟩
  intro d visible s hs fields messages e hchain hmem
  obtain ⟨n, hn⟩ := comesTo_of_chain hs hchain hmem
  obtain ⟨t, ht, -, rfl⟩ := (fieldSchema_eq_ok_iff_message hf).mp hn.result_eq
  exact ⟨_, t, hn, ht, f.surrounds_ofMessage c.policy t⟩

end Conversion

/-! ### A sock -/

namespace Wardrobe

/-- A sock reaches no message but itself. -/
theorem eq_of_reaches_sock {enums : List EnumType} {e : Declaration}
    (h : (conversion enums).Reaches sock e) : e = sock := by
  rcases Relation.ReflTransGen.cases_head h with rfl | ⟨d, ⟨f, hmem, hf⟩, -⟩
  · rfl
  · obtain rfl := List.mem_singleton.mp hmem
    exact absurd hf.1.1 (by decide)

theorem namesAbsolutely_sock (enums : List EnumType) : (conversion enums).NamesAbsolutely sock := by
  intro e he f hmem hf
  obtain rfl := eq_of_reaches_sock he
  obtain rfl := List.mem_singleton.mp hmem
  exact absurd hf.1 (by decide)

end Wardrobe

open Wardrobe in
/-- The sock in the drawers of a wardrobe is what a sock comes to by itself when the colours that
drawers declare are visible to it, and this from every package. -/
theorem Conversion.embedding_standalone_sock :
    ∃ s n t, ((conversion []).message (wardrobe []) []).result = .ok s ∧
      s.nodeAt? [.property "drawers", .items, .property "sock"] = some n ∧
      ((conversion []).message sock [colours]).result = .ok t ∧ n.properties = t.properties ∧
      ∀ package, ((⟨(conversion []).registry, package, (conversion []).policy⟩ :
        Conversion).message sock [colours]).result = .ok t := by
  obtain ⟨-, hchains, hpackages⟩ := Conversion.embedding_standalone (embeds_sock [])
  obtain ⟨s, hs⟩ := wardrobe_converts [] []
  obtain ⟨n, t, hn, ht, hsurrounds⟩ :=
    hchains _ _ s hs _ _ _ (chain_drawers []) List.mem_cons_self
  have hkeeps : (conversion []).KeepsAll (wardrobe []) [drawers, sockField] :=
    (keepsAll_colour []).of_append
  refine ⟨s, n, t, hs, hn.nodeAt?_eq hkeeps, ht, hsurrounds, fun package => ?_⟩
  exact (hpackages (namesAbsolutely_sock []) package _).trans ht

end ProtoSchema
