import GoDecl.TypeExpr.Basic

/-!
# Equality of type expressions

Two type expressions are equal when they are built alike, names, lengths and
flags included.  The comparison `TypeExpr.same` runs over both trees at once
and reduces in the kernel, so closed equalities close by `decide`.

## Main definitions

* `TypeExpr.same`: the comparison, with one function for each kind of part

## Main results

* `TypeExpr.same_iff`: the comparison decides equality
-/

namespace GoDecl

namespace TypeExpr

mutual

/-- Whether two type expressions are built alike. -/
def same : TypeExpr → TypeExpr → Bool
  | basic n, basic n' => n == n'
  | pointer t, pointer t' => same t t'
  | slice t, slice t' => same t t'
  | array len t, array len' t' => len == len' && same t t'
  | map k v, map k' v' => same k k' && same v v'
  | chan d t, chan d' t' => d == d' && same t t'
  | struct fs, struct fs' => sameBindings fs fs'
  | func s, func s' => sameSignature s s'
  | interface b, interface b' => sameBody b b'
  | named r, named r' => sameRef r r'
  | typeParam n, typeParam n' => n == n'
  | union ts, union ts' => sameTerms ts ts'
  | tuple bs, tuple bs' => sameBindings bs bs'
  | _, _ => false
termination_by structural a => a

/-- `same` for two lists of bindings. -/
def sameBindings : List Binding → List Binding → Bool
  | [], [] => true
  | b :: bs, b' :: bs' => b.name == b'.name && same b.type b'.type && sameBindings bs bs'
  | _, _ => false
termination_by structural a => a

/-- `same` for two signatures. -/
def sameSignature : Signature → Signature → Bool
  | ⟨ps, rs, v⟩, ⟨ps', rs', v'⟩ => sameBindings ps ps' && sameBindings rs rs' && v == v'
termination_by structural a => a

/-- `same` for two interface bodies. -/
def sameBody : InterfaceBody → InterfaceBody → Bool
  | ⟨ms, es⟩, ⟨ms', es'⟩ => sameBindings ms ms' && sameAll es es'
termination_by structural a => a

/-- `same` for two references. -/
def sameRef : TypeRef → TypeRef → Bool
  | ⟨n, p, args⟩, ⟨n', p', args'⟩ => n == n' && p == p' && sameAll args args'
termination_by structural a => a

/-- `same` for two lists of type expressions. -/
def sameAll : List TypeExpr → List TypeExpr → Bool
  | [], [] => true
  | t :: ts, t' :: ts' => same t t' && sameAll ts ts'
  | _, _ => false
termination_by structural a => a

/-- `same` for two lists of terms. -/
def sameTerms : List Term → List Term → Bool
  | [], [] => true
  | t :: ts, t' :: ts' => same t.type t'.type && t.tilde == t'.tilde && sameTerms ts ts'
  | _, _ => false
termination_by structural a => a

end

mutual

/-- **The comparison decides equality.** -/
theorem same_iff : ∀ t t' : TypeExpr, same t t' = true ↔ t = t'
  | basic _, t' => by cases t' <;> simp [same]
  | pointer t, t' => by cases t' <;> simp [same, same_iff t]
  | slice t, t' => by cases t' <;> simp [same, same_iff t]
  | array _ t, t' => by cases t' <;> simp [same, same_iff t]
  | map k v, t' => by cases t' <;> simp [same, same_iff k, same_iff v]
  | chan _ t, t' => by cases t' <;> simp [same, same_iff t]
  | struct fs, t' => by cases t' <;> simp [same, sameBindings_iff fs]
  | func s, t' => by cases t' <;> simp [same, sameSignature_iff s]
  | interface b, t' => by cases t' <;> simp [same, sameBody_iff b]
  | named r, t' => by cases t' <;> simp [same, sameRef_iff r]
  | typeParam _, t' => by cases t' <;> simp [same]
  | union ts, t' => by cases t' <;> simp [same, sameTerms_iff ts]
  | tuple bs, t' => by cases t' <;> simp [same, sameBindings_iff bs]

theorem sameBindings_iff : ∀ bs bs' : List Binding, sameBindings bs bs' = true ↔ bs = bs'
  | [], bs' => by cases bs' <;> simp [sameBindings]
  | ⟨n, t⟩ :: bs, bs' => by
    cases bs' with
    | nil => simp [sameBindings]
    | cons b' bs' => cases b'; simp [sameBindings, same_iff t, sameBindings_iff bs]

theorem sameSignature_iff : ∀ s s' : Signature, sameSignature s s' = true ↔ s = s'
  | ⟨ps, rs, v⟩, s' => by
    cases s'
    simp [sameSignature, sameBindings_iff ps, sameBindings_iff rs, and_assoc]

theorem sameBody_iff : ∀ b b' : InterfaceBody, sameBody b b' = true ↔ b = b'
  | ⟨ms, es⟩, b' => by cases b'; simp [sameBody, sameBindings_iff ms, sameAll_iff es]

theorem sameRef_iff : ∀ r r' : TypeRef, sameRef r r' = true ↔ r = r'
  | ⟨n, p, args⟩, r' => by cases r'; simp [sameRef, sameAll_iff args, and_assoc]

theorem sameAll_iff : ∀ ts ts' : List TypeExpr, sameAll ts ts' = true ↔ ts = ts'
  | [], ts' => by cases ts' <;> simp [sameAll]
  | t :: ts, ts' => by cases ts' <;> simp [sameAll, same_iff t, sameAll_iff ts]

theorem sameTerms_iff : ∀ ts ts' : List Term, sameTerms ts ts' = true ↔ ts = ts'
  | [], ts' => by cases ts' <;> simp [sameTerms]
  | ⟨t, a⟩ :: ts, ts' => by
    cases ts' with
    | nil => simp [sameTerms]
    | cons t' ts' => cases t'; simp [sameTerms, same_iff t, sameTerms_iff ts]

end

instance : DecidableEq TypeExpr := fun t t' => decidable_of_iff _ (same_iff t t')

end TypeExpr

end GoDecl
