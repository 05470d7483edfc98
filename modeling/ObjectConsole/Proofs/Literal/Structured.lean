import ObjectConsole.Proofs.Builtin.Collection
import ObjectConsole.Reading

/-!
Structured data in the world. Putting a tree into the world makes new lists and
tables only, from the leaves up, so that it keeps to every discipline that lets
these be made; and it never fails.
-/

namespace ObjectConsole.Discipline

variable {D : Discipline} {cat : Catalog} {f : Visit} {E : Raised → Prop}

mutual

theorem Builds.keeps_store (hB : D.Builds) (hD : D.Lawful cat) {w : World}
    (h : D.holds f w) (tree : Literal.Tree) : D.Keeps f E (D.knows f) tree.store w := by
  cases tree with
  | list items =>
      rw [Literal.Tree.store]
      exact (hB.keeps_storeItems hD h items).bind fun _ _ hw' hvalues =>
        hB.makesLists hw'.holds hvalues
  | table entries =>
      rw [Literal.Tree.store]
      exact (hB.keeps_storeEntries hD h entries).bind fun _ _ hw' hvalues =>
        hB.makesTable hw'.holds hvalues
  | _ => exact keeps_pure h (hD.plain h rfl)

theorem Builds.keeps_storeItems (hB : D.Builds) (hD : D.Lawful cat) {w : World}
    (h : D.holds f w) (items : List Literal.Tree) :
    D.Keeps f E (fun w' vs => ∀ v ∈ vs, D.knows f w' v) (Literal.Tree.storeItems items) w := by
  cases items with
  | nil => exact keeps_pure h (by simp)
  | cons item items =>
      rw [Literal.Tree.storeItems]
      refine (hB.keeps_store hD h item).bind fun v w₁ hw₁ hv => ?_
      refine (hB.keeps_storeItems hD hw₁.holds items).bind fun vs w₂ hw₂ hvs => ?_
      exact keeps_pure hw₂.holds (List.forall_mem_cons.2 ⟨hw₂.keeps v hv, hvs⟩)

theorem Builds.keeps_storeEntries (hB : D.Builds) (hD : D.Lawful cat) {w : World}
    (h : D.holds f w) (entries : List (Literal.Codes × Literal.Tree)) :
    D.Keeps f E (fun w' es => ∀ e ∈ es, D.knows f w' e.1 ∧ D.knows f w' e.2)
      (Literal.Tree.storeEntries entries) w := by
  cases entries with
  | nil => exact keeps_pure h (by simp)
  | cons entry entries =>
      obtain ⟨key, tree⟩ := entry
      rw [Literal.Tree.storeEntries]
      refine (hB.keeps_store hD h tree).bind fun v w₁ hw₁ hv => ?_
      refine (hB.keeps_storeEntries hD hw₁.holds entries).bind fun es w₂ hw₂ hes => ?_
      exact keeps_pure hw₂.holds
        (List.forall_mem_cons.2 ⟨⟨hD.plain hw₂.holds rfl, hw₂.keeps v hv⟩, hes⟩)

end

theorem isPlain_of_scalar? {token : List Char} {reading : Reading}
    (h : Reading.scalar? token = .ok (some reading)) : reading.value.isPlain = true := by
  rw [Reading.scalar?] at h
  split at h
  · obtain ⟨s, -, rfl⟩ := Option.map_eq_some_iff.1 (Except.ok.inj h)
    exact isPlain_scalar s
  · exact absurd h (by simp)

/-- What a token stands for is known once it has been read. -/
theorem Builds.keeps_ofToken? (hB : D.Builds) (hD : D.Lawful cat) {w : World}
    (h : D.holds f w) (token : List Char) :
    D.Keeps f (fun _ => True)
      (fun w' reading => ∀ r, reading = some r → D.knows f w' r.value)
      (Reading.ofToken? token) w := by
  simp only [Reading.ofToken?]
  split
  · exact keeps_throw h trivial
  · next r hr =>
      refine keeps_pure h fun r' hr' => hD.plain h ?_
      rw [← Option.some.inj hr']
      exact isPlain_of_scalar? hr
  · rw [Reading.structured?]
    split
    · exact keeps_pure h (by simp)
    · refine (hB.keeps_store hD h _).bind fun v w' hw' hv => keeps_pure hw'.holds fun r hr => ?_
      rwa [← Option.some.inj hr]

end ObjectConsole.Discipline
