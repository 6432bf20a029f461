import BenchTables.Proofs.Files.Stopping

/-!
# Writing what is there

A file that holds its content already is left as it is when it is written again (`Has.write_eq`),
and it holds its content while other places are written (`Has.writeAll`).  So outputs that are
written a second time change nothing, and end as they did the first time (`writeAll_again`).
-/

namespace BenchTables.Files

theorem putEntry_of_lookup {place : Place} {node : Node} {l : List (Place × Node)}
    (h : l.lookup place = some node) : putEntry place node l = l := by
  induction l with
  | nil => cases h
  | cons entry rest ih =>
    obtain ⟨key, old⟩ := entry
    unfold putEntry
    by_cases hkey : key = place
    · subst hkey
      rw [if_pos rfl]
      rw [List.lookup_cons_self] at h
      rw [Option.some.inj h]
    · rw [if_neg hkey, ih]
      rwa [List.lookup_cons, beq_eq_false_iff_ne.mpr (Ne.symm hkey)] at h

/-! ## Places apart -/

theorem apart_iff {text other : String} : Apart text other ↔
    ∀ p ∈ (Path.parse text).toOption, ∀ q ∈ (Path.parse other).toOption, p.place ≠ q.place := by
  unfold Apart
  cases Path.parse text <;> cases Path.parse other <;> simp [Except.toOption]

instance (text other : String) : Decidable (Apart text other) :=
  decidable_of_iff' _ apart_iff

/-- Files whose names end differently have different places, whatever their stems. -/
theorem apart_suffixed_of_getLast? {stem₁ stem₂ s₁ s₂ : String} (h₁ : NamesFile s₁)
    (h₂ : NamesFile s₂) (hne : s₁.toList.getLast? ≠ s₂.toList.getLast?) :
    Apart (suffixed stem₁ s₁) (suffixed stem₂ s₂) := by
  intro p q hp hq heq
  obtain ⟨absolute₁, parts₁, last₁, hparse₁⟩ := parse_suffixed stem₁
  obtain ⟨absolute₂, parts₂, last₂, hparse₂⟩ := parse_suffixed stem₂
  rw [hparse₁ s₁ p h₁ hp, hparse₂ s₂ q h₂ hq, Path.place, Path.place, List.foldl_append,
    List.foldl_append, List.foldl_cons, List.foldl_cons, stepInto_of_namesFile h₁,
    stepInto_of_namesFile h₂] at heq
  -- The names are the last parts of the places.
  have hnames := (List.append_inj' heq rfl).2
  rw [List.cons.injEq, String.ofList_inj] at hnames
  have hlast := congrArg List.getLast? hnames.1
  rw [List.getLast?_append_of_ne_nil _ h₁.toList_ne_nil,
    List.getLast?_append_of_ne_nil _ h₂.toList_ne_nil] at hlast
  exact hne hlast

namespace FileTree

variable {tree : FileTree} {text other : String} {place : Place} {node : Node}
  {content bytes : List UInt8} {output : Output} {outputs : List Output}

theorem put_of_node? (h : tree.node? place = some node) (hplace : Place.isAbove place = false) :
    tree.put place node = tree := by
  unfold node? at h
  rw [if_neg (by rw [hplace]; decide)] at h
  unfold put
  rw [putEntry_of_lookup h]

/-! ## One output -/

/-- What could be written can be written after any other file was. -/
theorem write_ok_of_write (h : (tree.write text content).2 = .ok ()) (other : String)
    (bytes : List UInt8) : ((tree.write other bytes).1.write text content).2 = .ok () := by
  cases hother : (tree.write other bytes).2 with
  | error failure => rwa [write_error hother]
  | ok _ =>
    obtain ⟨target, -, -, -, htarget, hafter⟩ := write_eq_ok hother
    rcases hafter with ⟨-, -, hafter⟩ | hafter
    · rwa [hafter]
    · rw [hafter]
      unfold write at h ⊢
      cases hdest : tree.destination text with
      | error cause => rw [hdest] at h; cases h
      | ok place =>
        rw [hdest] at h
        rw [destination_put (by simp) htarget hdest]
        dsimp only at h ⊢
        by_cases hsame : place = target.place
        · rw [hsame, node?_put_self tree _ _ (isAbove_of_node?_ne htarget)]
          rfl
        · -- A full device stays one, and takes no bytes as before.
          rw [node?_put_of_ne tree _ hsame]
          by_cases hfull : tree.node? place = some .full
          · rw [if_pos hfull] at h ⊢
            exact h
          · rw [if_neg hfull]

/-- A tree has an output: its content is there, and could be written again. -/
structure Has (tree : FileTree) (output : Output) : Prop where
  read : tree.read output.path = .ok output.content
  writable : (tree.write output.path output.content).2 = .ok ()

theorem has_of_write (h : (tree.write output.path output.content).2 = .ok ()) :
    (tree.write output.path output.content).1.Has output where
  read := read_write_self h
  writable := write_ok_of_write h output.path output.content

/-- Writing what is there changes nothing. -/
theorem Has.write_eq (h : tree.Has output) :
    tree.write output.path output.content = (tree, .ok ()) := by
  have hok := h.writable
  obtain ⟨found, node, hlocate, hcontent⟩ := read_eq_ok h.read
  obtain ⟨path, hparse, rfl, -, hthere⟩ := locate_eq_ok hlocate
  unfold write at hok ⊢
  cases hdest : tree.destination output.path with
  | error cause => rw [hdest] at hok; cases hok
  | ok place =>
    rw [hdest] at hok
    dsimp only at hok ⊢
    -- The path leads to where its content was read.
    obtain ⟨path', hparse', -, hwalk, hnode⟩ := destination_eq_ok hdest
    obtain rfl : path = path' := Except.ok.inj (hparse.symm.trans hparse')
    obtain rfl : place = path.place := eq_foldl_of_walk hwalk
    by_cases hfull : tree.node? path.place = some .full
    · rw [if_pos hfull] at hok ⊢
      exact Prod.ext rfl hok
    · rw [if_neg hfull]
      have hfile : node = .file output.content := by
        rcases hcontent with hfile | ⟨rfl, -⟩
        · exact hfile
        · exact absurd hthere hfull
      rw [← hfile, put_of_node? hthere (isAbove_of_node?_ne hnode)]

/-- A file reads the same after another place was written, or could not be. -/
theorem read_of_apart (h : tree.read text = .ok bytes) (hapart : Apart text other)
    (content : List UInt8) : (tree.write other content).1.read text = .ok bytes := by
  cases hother : (tree.write other content).2 with
  | error failure => rwa [write_error hother]
  | ok _ => exact read_write_of_apart h hother hapart

theorem Has.write (h : tree.Has output) (hapart : Apart output.path other)
    (content : List UInt8) : (tree.write other content).1.Has output where
  read := read_of_apart h.read hapart content
  writable := write_ok_of_write h.writable other content

/-! ## Outputs in order -/

/-- What every write keeps is kept by outputs in order, even if not all of them are written. -/
theorem writeAll_keeps (P : FileTree → Prop) (h : P tree)
    (hstep : ∀ t, P t → ∀ output ∈ outputs, P (t.write output.path output.content).1) :
    P (tree.writeAll outputs).1 := by
  induction outputs generalizing tree with
  | nil => exact h
  | cons first rest ih =>
    have hfirst := hstep tree h first List.mem_cons_self
    rw [FileTree.writeAll]
    rcases hwrite : tree.write first.path first.content with ⟨after, result⟩
    rw [hwrite] at hfirst
    cases result with
    | error failure => exact hfirst
    | ok _ =>
      refine ih hfirst ?_
      intro t ht output houtput
      exact hstep t ht output (List.mem_cons_of_mem _ houtput)

theorem read_of_apart_writeAll (h : tree.read text = .ok bytes)
    (hapart : ∀ output ∈ outputs, Apart text output.path) :
    (tree.writeAll outputs).1.read text = .ok bytes :=
  writeAll_keeps (fun t => t.read text = .ok bytes) h fun _ ht output houtput =>
    read_of_apart ht (hapart output houtput) output.content

/-- An output stays while other places are written. -/
theorem Has.writeAll (h : tree.Has output) (hapart : ∀ o ∈ outputs, Apart output.path o.path) :
    (tree.writeAll outputs).1.Has output :=
  writeAll_keeps (fun t => t.Has output) h fun _ ht o ho => ht.write (hapart o ho) o.content

theorem has_of_writeAll (h : (tree.writeAll outputs).2 = .ok ())
    (hapart : outputs.Pairwise fun a b => Apart a.path b.path) :
    ∀ output ∈ outputs, (tree.writeAll outputs).1.Has output := by
  induction outputs generalizing tree with
  | nil => simp
  | cons first rest ih =>
    obtain ⟨hfirst, hrest, hafter⟩ := writeAll_cons_eq_ok h
    obtain ⟨hothers, hpairs⟩ := List.pairwise_cons.mp hapart
    intro output houtput
    rw [hafter]
    rcases List.mem_cons.mp houtput with rfl | houtput
    · exact (has_of_write hfirst).writeAll hothers
    · exact ih hrest hpairs output houtput

theorem writeAll_of_has (h : ∀ output ∈ outputs, tree.Has output) :
    tree.writeAll outputs = (tree, .ok ()) := by
  induction outputs with
  | nil => rfl
  | cons first rest ih =>
    rw [writeAll, (h first List.mem_cons_self).write_eq]
    exact ih fun output houtput => h output (List.mem_cons_of_mem _ houtput)

/-- Writing the same outputs again changes nothing and ends as before, at the same output if it was
stopped there. -/
theorem writeAll_again (tree : FileTree)
    (hapart : outputs.Pairwise fun a b => Apart a.path b.path) :
    (tree.writeAll outputs).1.writeAll outputs = tree.writeAll outputs := by
  rcases hwritten : tree.writeAll outputs with ⟨after, ⟨output, failure⟩ | _⟩
  · obtain ⟨done, rest, rfl, hdone, hrefused⟩ := writeAll_eq_error (congrArg Prod.snd hwritten)
    have hhas := has_of_writeAll hdone (List.pairwise_append.mp hapart).1
    -- What was written before the stop is there, and the stop comes at the same tree.
    rw [writeAll_append hdone, writeAll_cons_of_error hrefused rest] at hwritten
    obtain rfl : (tree.writeAll done).1 = after := congrArg Prod.fst hwritten
    have hagain := writeAll_of_has hhas
    rw [writeAll_append (congrArg Prod.snd hagain), hagain, writeAll_cons_of_error hrefused rest]
  · have hok : (tree.writeAll outputs).2 = .ok () := by rw [hwritten]
    have hhas := has_of_writeAll hok hapart
    rw [hwritten] at hhas
    exact writeAll_of_has hhas

end FileTree

end BenchTables.Files
