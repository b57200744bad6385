-- How the kernel heap grows and how malloc walks the ring: a call finds a
-- block that fits, or comes back to the head, where the heap grows, once or
-- twice before the new block is found.
import AluraOs.KernelHeapLaws

namespace alura_os.kernel_heap

open alura_os.memory chains blocks

variable {σ : Type}

/-! ## Growth -/

section growth

variable {map_page : σ → Nat → σ × Bool}

/-- The bytes that a growth for `n` headers takes, as a number without end. -/
def growth (n : Nat) : Nat := (max (8 * n) 8192 + 4095) / 4096 * 4096

theorem growth_bytes_eq {n : Nat} (hn : growth n < 0x10000000) :
    kernel_heap_growth_bytes n = max (8 * n) 8192 := by
  unfold growth at hn
  unfold kernel_heap_growth_bytes KERNEL_HEAP_MINIMUM_HEADERS_TO_ALLOCATE
  rw [u32_of_lt (by omega)]
  dsimp only
  split <;> omega

theorem growth_bytes_spec {n : Nat} (hn : growth n < 0x10000000) :
    8 * n ≤ kernel_heap_growth_bytes n ∧ 8192 ≤ kernel_heap_growth_bytes n ∧
      kernel_heap_growth_bytes n % 8 = 0 ∧ ALIGN_UP (kernel_heap_growth_bytes n) = growth n := by
  have heq := growth_bytes_eq hn
  unfold growth at hn ⊢
  have hup : ALIGN_UP (max (8 * n) 8192) = (max (8 * n) 8192 + 4095) / 4096 * 4096 := by
    unfold ALIGN_UP ALIGN_DOWN
    rw [u32_of_lt (by omega)]
  rw [heq, hup]
  omega

/-- A fresh block on top of the heap, before it is freed into the ring. -/
theorem inv_fresh {k : kernel_heap_t σ} {free live : List Nat} {bytes : Nat} (s : σ)
    (h : Inv k free live) (hpos : 0 < bytes) (hmod : bytes % 8 = 0) (hlt : bytes ≤ 0x10000000)
    (hfit : k.heap_break + ALIGN_UP bytes ≤ 0xF7FFF000) :
    Inv ((({ k with pages := s, heap_break := u32 (k.heap_break + ALIGN_UP bytes) } :
        kernel_heap_t σ).setSize k.heap_break (bytes / 8)).setNext k.heap_break k.heap_break)
      free (k.heap_break :: live) ∧
    total ((({ k with pages := s, heap_break := u32 (k.heap_break + ALIGN_UP bytes) } :
        kernel_heap_t σ).setSize k.heap_break (bytes / 8)).setNext k.heap_break k.heap_break).bytes
      (free ++ k.heap_break :: live) = total k.bytes (free ++ live) + bytes := by
  have hup := ALIGN_UP_bounds (v := bytes) (by omega)
  have hmod4 := ALIGN_UP_mod bytes
  have hw := h.window
  have hu : u32 (k.heap_break + ALIGN_UP bytes) = k.heap_break + ALIGN_UP bytes :=
    u32_of_lt (by omega)
  have hnew : k.heap_break ∉ free ++ live := by
    intro hm
    have h1 := h.layout.high _ hm
    have h2 := h.layout.pos _ hm
    omega
  have hbase : k.heap_break ≠ k.base := by
    have h1 := hw.break_low
    have h2 := hw.base_low
    omega
  have hbytes : ((({ k with pages := s, heap_break := u32 (k.heap_break + ALIGN_UP bytes) } :
        kernel_heap_t σ).setSize k.heap_break (bytes / 8)).setNext k.heap_break k.heap_break).bytes =
      Function.update k.bytes k.heap_break bytes := by
    rw [bytes_setNext, bytes_setSize, show 8 * (bytes / 8) = bytes by omega]
    rfl
  have hb2 := hw.break_low
  have hb3 := hw.break_mod
  refine ⟨⟨⟨hw.base_pos, hw.base_low, ?_, hw.start_eq, hw.end_eq, ?_, ?_, ?_⟩,
    ?_, h.sorted, h.head_mem, ?_, ?_, ?_⟩, ?_⟩
  · have := hw.base_size
    simp only [kernel_heap_t.setNext_size, kernel_heap_t.setSize_size, kernel_heap_t.setNext_fields,
      kernel_heap_t.setSize_fields]
    rw [Function.update_of_ne hbase.symm]
    exact this
  · show 0xF0000000 ≤ u32 _; omega
  · show u32 _ ≤ _; omega
  · show u32 _ % 4096 = 0; omega
  · have hr := h.ring
    unfold Loop at hr ⊢
    simp only [kernel_heap_t.setNext_next, kernel_heap_t.setSize_next]
    refine (path_update ?_).mpr hr
    simp only [List.mem_cons, not_or]
    exact ⟨hbase, fun hm => hnew (List.mem_append_left _ hm)⟩
  · rw [hbytes]
    have hl : Layout (Function.update k.bytes k.heap_break bytes) k.heap_start k.heap_break
        (free ++ live) := by
      refine layout_congr h.layout ?_
      intro b hb
      rw [Function.update_of_ne]
      rintro rfl
      exact hnew hb
    have hroom : k.heap_break + bytes ≤ u32 (k.heap_break + ALIGN_UP bytes) := by omega
    have htop := layout_top hl (by rw [hw.start_eq]; exact hw.break_low)
      (Function.update_self _ _ _) hpos hroom
    exact layout_perm htop List.perm_middle
  · intro b hb
    simp only [List.mem_append, List.mem_cons] at hb
    rcases hb with hb | rfl | hb
    · exact h.aligned b (by simp [hb])
    · omega
    · exact h.aligned b (by simp [hb])
  · intro b hb c hc
    rw [hbytes, Function.update_of_ne]
    · exact h.gap b hb c hc
    · rintro rfl
      exact hnew (by simp [hb])
  · rw [hbytes, total_perm List.perm_middle, total_cons, Function.update_self, Nat.add_comm]
    congr 1
    apply total_congr
    intro b hb
    rw [Function.update_of_ne]
    rintro rfl
    exact hnew hb

/-- What a growth for `n` headers does to the pages and the break, and whether it gives memory. -/
def grow_pages (map_page : σ → Nat → σ × Bool) (n : Nat) (state : σ × Nat) : (σ × Nat) × Bool :=
  if 0xF7FFF000 < state.2 + growth n then (state, false)
  else
    let mapped := kernel_heap_map_pages map_page (growth n / 4096) state.2 state.1
    if mapped.2 then ((mapped.1, state.2 + growth n), true) else ((mapped.1, state.2), false)

/-- The pages and the break. -/
def kernel_heap_t.extent (k : kernel_heap_t σ) : σ × Nat := (k.pages, k.heap_break)

/-- The heap `k'` is `k` with room for `n` more headers at the end of its last block `w`. -/
structure Grew (k k' : kernel_heap_t σ) (n : Nat) (free live l' : List Nat) (w : Nat) : Prop where
  inv : Inv k' (l' ++ [w]) live
  ring : (l' = free ∧ (∀ b ∈ free, b + k.bytes b ≠ k.heap_break) ∧
    ∀ x ∈ k.base :: free, k'.size x = k.size x) ∨
    free = l' ++ [w] ∧ w + k.bytes w = k.heap_break ∧
      ∀ x ∈ k.base :: l', k'.size x = k.size x
  fits : n ≤ k'.size w
  reach : k.heap_break < w + k'.bytes w
  base : k'.base = k.base
  kept : ∀ x ∈ live, k'.size x = k.size x
  mono : ∀ x ∈ k.base :: free, k.size x ≤ k'.size x
  head : ∃ l₀, l₀ ++ [k'.free_headers_head] = k.base :: free
  total : blocks.total k'.bytes (l' ++ [w] ++ live) =
    blocks.total k.bytes (free ++ live) + kernel_heap_growth_bytes n

/-- The blocks do not lie in the state of the pages. -/
theorem Inv.repaged {k : kernel_heap_t σ} {free live : List Nat} (h : Inv k free live) (s : σ) :
    Inv { k with pages := s } free live := by
  obtain ⟨⟨w1, w2, w3, w4, w5, w6, w7, w8⟩, h2, h3, h4, h5, h6, h7⟩ := h
  exact ⟨⟨w1, w2, w3, w4, w5, w6, w7, w8⟩, h2, h3, h4, h5, h6, h7⟩

theorem physical_memory_spec (map_page : σ → Nat → σ × Bool) {k : kernel_heap_t σ}
    (hw : Window k) {n : Nat} (hn : k.heap_break + growth n < 0x100000000) :
    kernel_heap_allocate_physical_memory map_page k (kernel_heap_growth_bytes n) =
      ({ k with pages := (grow_pages map_page n k.extent).1.1,
                heap_break := (grow_pages map_page n k.extent).1.2 },
        if (grow_pages map_page n k.extent).2 then k.heap_break else 0) := by
  have hbl := hw.break_low
  obtain ⟨-, -, -, hup⟩ := growth_bytes_spec (show growth n < 0x10000000 by omega)
  have hend := hw.end_eq
  unfold kernel_heap_allocate_physical_memory grow_pages kernel_heap_t.extent
  simp only [hup, u32_of_lt hn, PAGE_SIZE]
  by_cases hroom : 0xF7FFF000 < k.heap_break + growth n
  · rw [if_pos (by rw [hend]; exact hroom), if_pos hroom]
    rfl
  · rw [if_neg (by rw [hend]; exact hroom), if_neg hroom]
    split
    · rename_i heq
      simp [heq]
    · rename_i heq
      simp [heq]

/-- Growth finds no room or no frame and leaves the blocks as they are, or it puts a block that
fits the request at the end of the ring. -/
theorem kernel_heap_allocate_more_headers_spec (map_page : σ → Nat → σ × Bool)
    {k : kernel_heap_t σ} {free live : List Nat} {n : Nat} (h : Inv k free live) (hn : k.heap_break + growth n < 0x100000000) :
    ((grow_pages map_page n k.extent).2 = false ∧
      (grow_pages map_page n k.extent).1.2 = k.heap_break ∧
      ∀ fuel, kernel_heap_allocate_more_headers map_page fuel k n =
        some ({ k with pages := (grow_pages map_page n k.extent).1.1 }, 0)) ∨
    ((grow_pages map_page n k.extent).2 = true ∧ ∃ k' l' w, k'.extent = (grow_pages map_page n
        k.extent).1 ∧ Grew k k' n free live l' w ∧ k'.free_headers_head ≠ 0 ∧
      ∀ fuel, free.length + 1 ≤ fuel →
        kernel_heap_allocate_more_headers map_page fuel k n = some (k', k'.free_headers_head)) := by
  have hw := h.window
  have hbl := hw.break_low
  obtain ⟨hb1, hb2, hb4, hup⟩ := growth_bytes_spec (show growth n < 0x10000000 by omega)
  have hb3 : kernel_heap_growth_bytes n ≤ 0x10000000 := by
    have := (ALIGN_UP_bounds (v := kernel_heap_growth_bytes n) (by
      unfold kernel_heap_growth_bytes u32 KERNEL_HEAP_MINIMUM_HEADERS_TO_ALLOCATE
      dsimp only
      unfold growth at hn
      split <;> omega)).1
    omega
  have hphys := physical_memory_spec map_page hw hn
  cases hg : (grow_pages map_page n k.extent).2 with
  | false =>
    left
    rw [hg] at hphys
    have hkeep : (grow_pages map_page n k.extent).1.2 = k.heap_break := by
      unfold grow_pages at hg ⊢
      simp only at hg ⊢
      split
      · rfl
      · rename_i hroom
        rw [if_neg hroom] at hg
        split
        · rename_i hmapped
          rw [if_pos hmapped] at hg
          cases hg
        · rfl
    rw [hkeep] at hphys
    refine ⟨rfl, hkeep, fun fuel => ?_⟩
    unfold kernel_heap_allocate_more_headers
    simp [hphys]
  | true =>
    right
    rw [hg] at hphys
    have hgrown : (grow_pages map_page n k.extent).1.2 = k.heap_break + growth n ∧
        k.heap_break + growth n ≤ 0xF7FFF000 := by
      unfold grow_pages at hg ⊢
      simp only at hg ⊢
      split
      · rename_i hroom
        rw [if_pos hroom] at hg
        cases hg
      · rename_i hroom
        rw [if_neg hroom] at hg
        split
        · exact ⟨rfl, Nat.le_of_not_lt hroom⟩
        · rename_i hmapped
          rw [if_neg hmapped] at hg
          cases hg
    generalize hs : (grow_pages map_page n k.extent).1.1 = s at *
    have hpair : (grow_pages map_page n k.extent).1 = (s, k.heap_break + growth n) :=
      Prod.ext hs hgrown.1
    rw [hgrown.1] at hphys
    obtain ⟨hinv, htotal⟩ := inv_fresh s h (show 0 < kernel_heap_growth_bytes n by omega) hb4 hb3
      (by rw [hup]; exact hgrown.2)
    rw [hup, u32_of_lt hn] at hinv htotal
    obtain ⟨k', l, r, l', w, r', hlr, hr, hr', hl', hinv', hsize, hsame, hlive, hmono, hhead,
      hsum, hfuel⟩ := kernel_heap_free_spec hinv
    -- Every free block lies below the old break, so the fresh block is the last one.
    have hrnil : r = [] := by
      cases r with
      | nil => rfl
      | cons z zs =>
        have h1 := hr z (by simp)
        have h2 := h.layout.high z (by simp [hlr])
        omega
    subst hrnil
    have hr'nil : r' = [] := by
      rcases hr' with hr' | ⟨m, hm⟩
      · exact hr'
      · cases hm
    subst hr'nil
    simp only [List.append_nil] at hlr
    subst hlr
    have hne : k'.free_headers_head ≠ 0 := by
      have hm := hinv'.head_mem
      rcases List.mem_cons.mp hm with hm | hm
      · have := hinv'.window.base_pos; omega
      · have := (block_bounds hinv'.window hinv'.layout (List.mem_append_left _ hm)).1; omega
    have hxb : ∀ x ∈ k.base :: free, x ≠ k.heap_break := by
      rintro x hx rfl
      rcases List.mem_cons.mp hx with hx | hx
      · have := hw.base_low; omega
      · have h1 := h.layout.high k.heap_break (by simp [hx])
        have h2 := h.layout.pos k.heap_break (by simp [hx])
        omega
    have hold : ∀ x, x ≠ k.heap_break →
        ((({ k with pages := s, heap_break := k.heap_break + growth n } :
          kernel_heap_t σ).setSize k.heap_break (kernel_heap_growth_bytes n / 8)).setNext
            k.heap_break k.heap_break).size x = k.size x := by
      intro x hx
      simp only [kernel_heap_t.setNext_size, kernel_heap_t.setSize_size]
      rw [Function.update_of_ne hx]
      rfl
    have hnew : ((({ k with pages := s, heap_break := k.heap_break + growth n } :
        kernel_heap_t σ).setSize k.heap_break (kernel_heap_growth_bytes n / 8)).setNext
          k.heap_break k.heap_break).size k.heap_break = kernel_heap_growth_bytes n / 8 := by
      simp only [kernel_heap_t.setNext_size, kernel_heap_t.setSize_size, Function.update_self]
    have hfresh : kernel_heap_growth_bytes n / 8 ≤ k'.size w := hnew ▸ hsize
    have hmono' : ∀ x ∈ k.base :: free, k.size x ≤ k'.size x := by
      intro x hx
      exact le_trans (le_of_eq (hold x (hxb x hx)).symm) (hmono x (hxb x hx))
    refine ⟨rfl, k', l', w, ?_, ⟨hinv', ?_, ?_, ?_, hsame.base, ?_, hmono', hhead, ?_⟩, hne, ?_⟩
    · rw [hpair]
      exact Prod.ext hsame.pages hsame.heap_break
    · rcases hl' with ⟨rfl, rfl, hsizes⟩ | ⟨hl', htouch, -, hsizes⟩
      · refine Or.inl ⟨rfl, fun b hb htouch => ?_,
          fun x hx => (hsizes x (hxb x hx)).trans (hold x (hxb x hx))⟩
        -- A block that touched the break would touch the new block, and be joined to it.
        have hgap := hinv'.gap b (by simp [hb]) k.heap_break (by simp)
        have hlt := h.layout.high b (by simp [hb])
        have hbne : b ≠ k.heap_break := hxb b (by simp [hb])
        have hap := hinv'.layout.apart b (by simp [hb]) k.heap_break (by simp) hbne
        have hpos := h.layout.pos b (by simp [hb])
        have hm := hmono' b (by simp [hb])
        unfold Apart kernel_heap_t.bytes at hap
        unfold kernel_heap_t.bytes at hgap htouch hpos
        omega
      · refine Or.inr ⟨hl', ?_, fun x hx => ?_⟩
        · unfold kernel_heap_t.bytes at htouch ⊢
          rwa [hold w (hxb w (by simp [hl']))] at htouch
        · have hxm : x ∈ k.base :: free := by
            rw [hl', ← List.cons_append]
            exact List.mem_append_left _ hx
          have hxw : x ≠ w := by
            rintro rfl
            have hnd : (k.base :: l' ++ [x]).Nodup := by
              rw [List.cons_append, ← hl']
              exact h.sorted.imp (fun hlt => Nat.ne_of_lt hlt)
            exact (List.nodup_append.mp hnd).2.2 x hx x (by simp) rfl
          exact (hsizes x (hxb x hxm) hxw).trans (hold x (hxb x hxm))
    · exact le_trans (by omega) hfresh
    · rcases hl' with ⟨-, rfl, -⟩ | ⟨-, htouch, hjoin, -⟩
      · unfold kernel_heap_t.bytes
        omega
      · unfold kernel_heap_t.bytes at htouch ⊢
        rw [hnew] at hjoin
        omega
    · intro x hx
      rw [hlive x hx]
      refine hold x ?_
      rintro rfl
      have h1 := h.layout.high k.heap_break (by simp [hx])
      have h2 := h.layout.pos k.heap_break (by simp [hx])
      omega
    · rw [← htotal, ← hsum]
    · intro fuel hle
      unfold kernel_heap_allocate_more_headers
      simp only [hphys, if_true, show ¬ k.heap_break = 0 by omega, if_false,
        u32_of_lt (by omega : k.heap_break + 8 < 0x100000000), hfuel fuel hle]

/-! ## Malloc -/

/-- The walk of malloc with its growths: whether each of them gave memory. -/
def kernel_heap_malloc_trace (map_page : σ → Nat → σ × Bool) (n : Nat) :
    Nat → kernel_heap_t σ → Nat → Nat → Option ((kernel_heap_t σ × Nat) × List Bool)
  | 0, _, _, _ => none
  | fuel + 1, k, previous, current =>
    if n ≤ k.size current then some (kernel_heap_take k n previous current, [])
    else if current = k.free_headers_head then
      match kernel_heap_allocate_more_headers map_page fuel k n with
      | none => none
      | some (k1, headers) =>
        if headers = 0 then some ((k1, 0), [false])
        else (kernel_heap_malloc_trace map_page n fuel k1 current (k1.next current)).map
          fun r => (r.1, true :: r.2)
    else kernel_heap_malloc_trace map_page n fuel k current (k.next current)

theorem malloc_trace_walk (n fuel : Nat) (k : kernel_heap_t σ) (previous current : Nat) :
    kernel_heap_malloc_walk map_page n fuel k previous current =
      (kernel_heap_malloc_trace map_page n fuel k previous current).map Prod.fst := by
  induction fuel generalizing k previous current with
  | zero => rfl
  | succ fuel ih =>
    unfold kernel_heap_malloc_walk kernel_heap_malloc_trace
    split
    · rfl
    · split
      · cases kernel_heap_allocate_more_headers map_page fuel k n with
        | none => rfl
        | some r =>
          obtain ⟨k1, headers⟩ := r
          simp only
          split
          · rfl
          · rw [ih, Option.map_map]
            rfl
      · exact ih _ _ _

/-- Malloc gave a new live block of `n` headers; all blocks together have `sum` bytes. -/
structure Gives (k : kernel_heap_t σ) (live : List Nat) (n sum : Nat)
    (res : kernel_heap_t σ × Nat) : Prop where
  base : res.1.base = k.base
  kept : ∀ x ∈ live, res.1.size x = k.size x
  block : ∃ b free, res.2 = b + 8 ∧ Inv res.1 free (b :: live) ∧ res.1.size b = n ∧
    total res.1.bytes (free ++ b :: live) = sum

theorem Gives.trans {k k1 : kernel_heap_t σ} {live : List Nat} {n sum : Nat}
    {res : kernel_heap_t σ × Nat} (h : Gives k1 live n sum res) (hb : k1.base = k.base)
    (hl : ∀ x ∈ live, k1.size x = k.size x) : Gives k live n sum res :=
  ⟨h.base.trans hb, fun x hx => (h.kept x hx).trans (hl x hx), h.block⟩

theorem Gives.ne_zero {k : kernel_heap_t σ} {live : List Nat} {n sum : Nat}
    {res : kernel_heap_t σ × Nat} (h : Gives k live n sum res) : res.2 ≠ 0 := by
  obtain ⟨b, free, hb, -⟩ := h.block
  omega

theorem gives_take {k : kernel_heap_t σ} {free live : List Nat} {n previous current : Nat}
    (h : Inv k free live) (hn : 0 < n) (hp : previous ∈ k.base :: free)
    (hc : current ∈ k.base :: free) (hnext : k.next previous = current)
    (hfit : n ≤ k.size current) :
    Gives k live n (total k.bytes (free ++ live)) (kernel_heap_take k n previous current) ∧
      (kernel_heap_take k n previous current).1.extent = k.extent ∧
      (kernel_heap_take k n previous current).2 + 8 * n = current + k.bytes current + 8 := by
  obtain ⟨k', free', b, he, hinv, hb, hsame, hlive, htotal, hend⟩ :=
    kernel_heap_take_spec h hn hp hc hnext hfit
  rw [he]
  exact ⟨⟨hsame.base, hlive, b, free', rfl, hinv, hb, htotal⟩,
    Prod.ext hsame.pages hsame.heap_break, by simp only; omega⟩

/-- A pointer of the ring leads to a node of the ring. -/
theorem loop_next_mem {k : kernel_heap_t σ} {free : List Nat} (h : Loop k.next k.base free)
    {x : Nat} (hx : x ∈ k.base :: free) : k.next x ∈ k.base :: free := by
  have hm : k.next x ∈ (k.base :: free).map k.next := List.mem_map_of_mem hx
  rw [path_map_next h] at hm
  simp only [List.mem_append, List.mem_cons] at hm ⊢
  tauto

/-- The walk of malloc along a part of the ring without the head: it takes a block there, or
comes to the end of the part. -/
theorem malloc_walk_part (map_page : σ → Nat → σ × Bool) {live : List Nat} {n c : Nat} (hn : 0 < n)
    (ys : List Nat)
    {k : kernel_heap_t σ} {free : List Nat} {previous : Nat} (h : Inv k free live)
    (hpath : Path k.next (k.next previous) ys c) (hys : k.free_headers_head ∉ ys)
    (hp : previous ∈ k.base :: free) :
    ((∃ y ∈ ys, n ≤ k.size y) ∧ ∃ N res, (∀ fuel, N ≤ fuel →
        kernel_heap_malloc_trace map_page n fuel k previous (k.next previous) = some (res, [])) ∧
      Gives k live n (total k.bytes (free ++ live)) res ∧ res.1.extent = k.extent) ∨
    (∀ y ∈ ys, ¬ n ≤ k.size y) ∧ ∃ last ∈ k.base :: free, k.next last = c ∧
      ∀ fuel, kernel_heap_malloc_trace map_page n (fuel + ys.length) k previous (k.next previous) =
        kernel_heap_malloc_trace map_page n fuel k last c := by
  induction ys generalizing previous with
  | nil =>
    refine Or.inr ⟨by simp, previous, hp, hpath, fun fuel => ?_⟩
    rw [path_nil.mp hpath]
    rfl
  | cons y ys ih =>
    obtain ⟨hy, hpath⟩ := hpath
    simp only [List.mem_cons, not_or] at hys
    have hyr : y ∈ k.base :: free := hy ▸ loop_next_mem h.ring hp
    by_cases hfit : n ≤ k.size y
    · left
      obtain ⟨hgives, hextent, -⟩ := gives_take h hn hp hyr hy hfit
      refine ⟨⟨y, by simp, hfit⟩, 1, kernel_heap_take k n previous y, ?_, hgives, hextent⟩
      intro fuel hfuel
      obtain ⟨m, rfl⟩ : ∃ m, fuel = m + 1 := ⟨fuel - 1, by omega⟩
      rw [kernel_heap_malloc_trace, hy, if_pos hfit]
    · have hstep : ∀ fuel, kernel_heap_malloc_trace map_page n (fuel + 1) k previous
          (k.next previous) = kernel_heap_malloc_trace map_page n fuel k y (k.next y) := by
        intro fuel
        rw [kernel_heap_malloc_trace, hy, if_neg hfit, if_neg (fun he => hys.1 he.symm)]
      rcases ih hpath hys.2 hyr with ⟨⟨z, hz, hfz⟩, N, res, hres, hgives⟩ |
        ⟨hsmall, last, hlast, hnext, hwalk⟩
      · refine Or.inl ⟨⟨z, by simp [hz], hfz⟩, N + 1, res, fun fuel hfuel => ?_, hgives⟩
        obtain ⟨m, rfl⟩ : ∃ m, fuel = m + 1 := ⟨fuel - 1, by omega⟩
        rw [hstep m]
        exact hres m (by omega)
      · refine Or.inr ⟨?_, last, hlast, hnext, fun fuel => ?_⟩
        · intro z hz
          rcases List.mem_cons.mp hz with rfl | hz
          · exact hfit
          · exact hsmall z hz
        · rw [List.length_cons, ← Nat.add_assoc, hstep, hwalk]

/-- The nodes of the ring. -/
def OnRing (k : kernel_heap_t σ) (b : Nat) : Prop := ∃ xs, Path k.next k.base xs b

theorem Inv.onRing {k : kernel_heap_t σ} {free live : List Nat} (h : Inv k free live) {b : Nat} :
    OnRing k b ↔ b ∈ k.base :: free := by
  constructor
  · rintro ⟨xs, hpath⟩
    have hmem : ∀ (xs : List Nat) (a : Nat), a ∈ k.base :: free → Path k.next a xs b →
        b ∈ k.base :: free := by
      intro xs
      induction xs with
      | nil => exact fun a ha hp => path_nil.mp hp ▸ ha
      | cons x xs ih =>
        rintro a ha ⟨rfl, hp⟩
        exact ih _ (loop_next_mem h.ring ha) hp
    exact hmem xs _ List.mem_cons_self hpath
  · intro hb
    obtain ⟨l, r, hlr⟩ := List.append_of_mem hb
    have hring := h.ring
    unfold Loop at hring
    rw [hlr] at hring
    exact ⟨l, (path_split.mp hring).1⟩

/-- After a growth malloc will come to the head again before it finds the new block, and grow
once more: the last free block is not the head, and it does not touch the break. -/
def GrowsTwice (k : kernel_heap_t σ) : Prop :=
  k.next k.free_headers_head ≠ k.base ∧ ∀ b, OnRing k b → k.endOf b ≠ k.heap_break

/-- The walk of malloc at a block that fits. -/
theorem malloc_walk_fits (map_page : σ → Nat → σ × Bool) {k : kernel_heap_t σ}
    {free live : List Nat} {n last c : Nat}
    (h : Inv k free live) (hn : 0 < n) (hlast : last ∈ k.base :: free) (hnext : k.next last = c)
    (hfit : n ≤ k.size c) :
    ∃ res, (∀ fuel, kernel_heap_malloc_trace map_page n (fuel + 1) k last c = some (res, [])) ∧
      Gives k live n (total k.bytes (free ++ live)) res ∧ res.1.extent = k.extent ∧
      res.2 + 8 * n = c + k.bytes c + 8 := by
  have hgives := gives_take h hn hlast (hnext ▸ loop_next_mem h.ring hlast) hnext hfit
  refine ⟨kernel_heap_take k n last c, fun fuel => ?_, hgives⟩
  rw [kernel_heap_malloc_trace, if_pos hfit]

/-- The walk of malloc along a part of the ring without the head, where no block fits, to a block
that does. -/
theorem malloc_walk_to_fit (map_page : σ → Nat → σ × Bool) {live : List Nat} {n w : Nat}
    (hn : 0 < n) (ys : List Nat)
    {k : kernel_heap_t σ} {free : List Nat} {previous : Nat} (h : Inv k free live)
    (hpath : Path k.next (k.next previous) ys w) (hys : k.free_headers_head ∉ ys)
    (hp : previous ∈ k.base :: free) (hsmall : ∀ y ∈ ys, ¬ n ≤ k.size y) (hfit : n ≤ k.size w) :
    ∃ N res, (∀ fuel, N ≤ fuel → kernel_heap_malloc_trace map_page n fuel k previous
        (k.next previous) = some (res, [])) ∧
      Gives k live n (total k.bytes (free ++ live)) res ∧ res.1.extent = k.extent ∧
      res.2 + 8 * n = w + k.bytes w + 8 := by
  rcases malloc_walk_part map_page hn ys h hpath hys hp with
    ⟨⟨y, hy, hfits⟩, -⟩ | ⟨-, last, hlast, hnext, hwalk⟩
  · exact absurd hfits (hsmall y hy)
  · obtain ⟨res, hres, hgives⟩ := malloc_walk_fits map_page h hn hlast hnext hfit
    refine ⟨ys.length + 1, res, fun fuel hfuel => ?_, hgives⟩
    obtain ⟨m, rfl⟩ : ∃ m, fuel = m + 1 + ys.length := ⟨fuel - ys.length - 1, by omega⟩
    rw [hwalk, hres]

/-- Malloc gave `NULL`; the blocks have `sum` bytes. -/
structure Refuses (k : kernel_heap_t σ) (live : List Nat) (sum : Nat)
    (res : kernel_heap_t σ × Nat) : Prop where
  null : res.2 = 0
  base : res.1.base = k.base
  kept : ∀ x ∈ live, res.1.size x = k.size x
  blocks : ∃ free, Inv res.1 free live ∧ total res.1.bytes (free ++ live) = sum

theorem Refuses.trans {k k1 : kernel_heap_t σ} {live : List Nat} {sum : Nat}
    {res : kernel_heap_t σ × Nat} (h : Refuses k1 live sum res) (hb : k1.base = k.base)
    (hl : ∀ x ∈ live, k1.size x = k.size x) : Refuses k live sum res :=
  ⟨h.null, h.base.trans hb, fun x hx => (h.kept x hx).trans (hl x hx), h.blocks⟩

theorem Inv.refuses {k : kernel_heap_t σ} {free live : List Nat} (h : Inv k free live) (s : σ) :
    Refuses k live (total k.bytes (free ++ live)) ({ k with pages := s }, 0) :=
  ⟨rfl, rfl, fun _ _ => rfl, free, h.repaged s, rfl⟩

/-- What malloc does once the heap grew to `k'`: it gives a block, or grows once more, and gives
a block if that went well. `log` are the growths from there on. -/
def Regrown (map_page : σ → Nat → σ × Bool) (k k' : kernel_heap_t σ) (n sum : Nat)
    (live : List Nat) (res : kernel_heap_t σ × Nat) (log : List Bool) : Prop :=
  (¬ GrowsTwice k ∧ log = [] ∧ Gives k' live n sum res ∧ res.1.extent = k'.extent ∧
    k.heap_break + 8 < res.2 + 8 * n) ∨
  GrowsTwice k ∧ log = [(grow_pages map_page n k'.extent).2] ∧
    res.1.extent = (grow_pages map_page n k'.extent).1 ∧
    if (grow_pages map_page n k'.extent).2 then
      Gives k' live n (sum + kernel_heap_growth_bytes n) res
    else Refuses k' live sum res

/-- When the head is not the last node of the ring and no block touches the break, the ring will
bring malloc to a new head before the new block. -/
theorem Inv.growsTwice {k : kernel_heap_t σ} {free live pre post : List Nat} {last : Nat}
    (h : Inv k free live) (hsplit : k.base :: free = pre ++ k.free_headers_head :: (post ++ [last]))
    (htouch : ∀ b ∈ free, b + k.bytes b ≠ k.heap_break) : GrowsTwice k := by
  have hw := h.window
  have hnd : (k.base :: free).Nodup := h.sorted.imp (fun hlt => Nat.ne_of_lt hlt)
  constructor
  · intro hnext
    have hpath := h.ring
    unfold Loop at hpath
    rw [hsplit] at hpath hnd
    have hrest := (path_split.mp hpath).2
    obtain ⟨z, zs, hz⟩ : ∃ z zs, post ++ [last] = z :: zs := by
      cases post with
      | nil => exact ⟨last, [], rfl⟩
      | cons z zs => exact ⟨z, zs ++ [last], rfl⟩
    rw [hz] at hrest hnd hsplit
    have hzb : z = k.base := by rw [← hrest.1, hnext]
    -- The base is the first node, so it does not come after the head.
    cases pre with
    | nil =>
      have hhead := (List.cons.inj hsplit).1
      rw [List.nil_append, List.nodup_cons] at hnd
      exact hnd.1 (by rw [← hhead, ← hzb]; exact List.mem_cons_self)
    | cons p ps =>
      have hp := (List.cons.inj hsplit).1
      rw [List.cons_append, List.nodup_cons] at hnd
      exact hnd.1 (by rw [← hp, ← hzb]; simp)
  · intro b hb
    rcases List.mem_cons.mp (h.onRing.mp hb) with rfl | hm
    · have h1 := hw.base_low
      have h2 := hw.break_low
      unfold kernel_heap_t.endOf
      rw [hw.base_size, u32_of_lt (by omega)]
      omega
    · rw [endOf_eq hw h.layout (List.mem_append_left _ hm)]
      exact htouch b hm

/-- Malloc at the head, where no block fits, while the block behind it does: the heap grows once
more before that block is found. -/
theorem malloc_walk_again (map_page : σ → Nat → σ × Bool) {live free pre : List Nat}
    {n last w : Nat} (hn : 0 < n) {k : kernel_heap_t σ} (h : Inv k free live)
    (hroom : k.heap_break + growth n < 0x100000000) (hhead : k.free_headers_head = last)
    (hsplit : k.base :: free = pre ++ [last, w]) (hlast : ¬ n ≤ k.size last) (hfit : n ≤ k.size w)
    (stop : Nat) :
    ∃ N res, (∀ fuel, N ≤ fuel → kernel_heap_malloc_trace map_page n fuel k stop last =
        some (res, [(grow_pages map_page n k.extent).2])) ∧
      res.1.extent = (grow_pages map_page n k.extent).1 ∧
      if (grow_pages map_page n k.extent).2 then
        Gives k live n (total k.bytes (free ++ live) + kernel_heap_growth_bytes n) res
      else Refuses k live (total k.bytes (free ++ live)) res := by
  have hat : ∀ fuel, kernel_heap_malloc_trace map_page n (fuel + 1) k stop last =
      (match kernel_heap_allocate_more_headers map_page fuel k n with
      | none => none
      | some (k1, headers) =>
        if headers = 0 then some ((k1, 0), [false])
        else (kernel_heap_malloc_trace map_page n fuel k1 last (k1.next last)).map
          fun r => (r.1, true :: r.2)) := by
    intro fuel
    rw [kernel_heap_malloc_trace, if_neg hlast, if_pos hhead.symm]
  rcases kernel_heap_allocate_more_headers_spec map_page h hroom with
    ⟨hfail, hkeep, hmore⟩ | ⟨hdone, k2, l2, w2, hextent, hgrow, hne, hmore⟩
  · refine ⟨1, ({ k with pages := (grow_pages map_page n k.extent).1.1 }, 0), fun fuel hfuel => ?_,
      Prod.ext rfl hkeep.symm, ?_⟩
    · obtain ⟨m, rfl⟩ : ∃ m, fuel = m + 1 := ⟨fuel - 1, by omega⟩
      rw [hat, hmore m, hfail]
      rfl
    · rw [hfail]
      exact h.refuses _
  · have hring : ∃ rest, k2.base :: (l2 ++ [w2]) = pre ++ last :: w :: rest := by
      rcases hgrow.ring with ⟨rfl, -⟩ | ⟨hjoin, -⟩
      · refine ⟨[w2], ?_⟩
        rw [hgrow.base, ← List.cons_append, hsplit]
        simp
      · refine ⟨[], ?_⟩
        rw [hgrow.base, ← hjoin, hsplit]
    obtain ⟨rest, hrest⟩ := hring
    have hlast2 : last ∈ k2.base :: (l2 ++ [w2]) := by
      rw [hrest]
      simp
    have hnext2 : k2.next last = w := by
      have hloop2 := hgrow.inv.ring
      unfold Loop at hloop2
      rw [hrest] at hloop2
      exact (path_split.mp hloop2).2.1
    have hw : w ∈ k.base :: free := by
      rw [hsplit]
      simp
    obtain ⟨res, hres, hgives, hextent', -⟩ := malloc_walk_fits map_page hgrow.inv hn hlast2 hnext2
      (hfit.trans (hgrow.mono w hw))
    refine ⟨free.length + 2, res, fun fuel hfuel => ?_, hextent'.trans hextent, ?_⟩
    · obtain ⟨m, rfl⟩ : ∃ m, fuel = m + 1 + 1 := ⟨fuel - 2, by omega⟩
      rw [hat, hmore (m + 1) (by omega), hdone]
      simp only [hne, if_false, hnext2, hres m, Option.map_some]
    · rw [hdone, if_pos rfl, ← hgrow.total]
      exact hgives.trans hgrow.base hgrow.kept

/-- Malloc once it came to the head, where no block fits, and the heap grew. -/
theorem malloc_walk_regrown (map_page : σ → Nat → σ × Bool) {live free l' : List Nat} {n w : Nat}
    (hn : 0 < n) {k k' : kernel_heap_t σ} (hgrow : Grew k k' n free live l' w)
    (hring : Inv k free live)
    (hgn : growth n ≤ 0x08000000) (hsmall : ∀ b ∈ k.base :: free, ¬ n ≤ k.size b) :
    ∃ N res log, (∀ fuel, N ≤ fuel → kernel_heap_malloc_trace map_page n fuel k'
        k.free_headers_head (k'.next k.free_headers_head) = some (res, log)) ∧
      Regrown map_page k k' n (total k'.bytes (l' ++ [w] ++ live)) live res log := by
  have hinv := hgrow.inv
  obtain ⟨pre, post, hsplit⟩ := List.append_of_mem hring.head_mem
  obtain ⟨l₀, hlast⟩ := hgrow.head
  have hnd : (k.base :: free).Nodup := hring.sorted.imp (fun hlt => Nat.ne_of_lt hlt)
  have hloop := hinv.ring
  have hbase := hgrow.base
  rcases hgrow.ring with ⟨rfl, htouch, hsizes⟩ | ⟨rfl, htouch, hsizes⟩
  · -- The new block stands alone, behind the last node of the old ring.
    have hnew : k'.base :: (l' ++ [w]) = pre ++ k.free_headers_head :: (post ++ [w]) := by
      rw [hbase, ← List.cons_append, hsplit]
      simp
    have hmem : k.free_headers_head ∈ k'.base :: (l' ++ [w]) := by
      rw [hnew]
      simp
    have hafter : Path k'.next (k'.next k.free_headers_head) (post ++ [w]) k'.base := by
      unfold Loop at hloop
      rw [hnew] at hloop
      exact (path_split.mp hloop).2
    rcases List.eq_nil_or_concat post with rfl | ⟨post', last, hpost⟩
    · -- The head was the last node, so the new block is the next one.
      have hw : k'.next k.free_headers_head = w := (path_cons.mp hafter).1
      obtain ⟨N, res, hres, hgives, hextent, hend⟩ := malloc_walk_to_fit map_page hn []
        hinv (path_nil.mpr hw) (by simp) hmem (by simp) hgrow.fits
      refine ⟨N, res, [], hres, Or.inl ⟨fun hc => hc.1 ?_, rfl, hgives, hextent, by
        have := hgrow.reach
        omega⟩⟩
      have hold := hring.ring
      unfold Loop at hold
      rw [hsplit] at hold
      exact path_nil.mp (path_split.mp hold).2
    · -- The walk comes to the last node of the old ring, which is the head now, and grows again.
      rw [List.concat_eq_append] at hpost
      subst hpost
      have htwice := hring.growsTwice hsplit htouch
      have hhead : k'.free_headers_head = last := by
        rw [hsplit, ← List.cons_append, ← List.append_assoc] at hlast
        exact List.singleton_inj.mp (List.append_inj_right' hlast rfl)
      have hpath : Path k'.next (k'.next k.free_headers_head) post' last := by
        rw [List.append_assoc] at hafter
        exact (path_split.mp hafter).1
      have hin : ∀ x ∈ post' ++ [last], x ∈ k.base :: l' := by
        intro x hx
        rw [hsplit]
        exact List.mem_append_right _ (List.mem_cons_of_mem _ hx)
      have hlastsmall : ¬ n ≤ k'.size last := by
        rw [hsizes last (hin last (by simp))]
        exact hsmall last (hin last (by simp))
      rcases malloc_walk_part map_page hn post' hinv hpath (by
        rw [hhead]
        intro hm
        rw [hsplit] at hnd
        have hpart := (List.nodup_cons.mp (List.nodup_append.mp hnd).2.1).2
        exact (List.nodup_append.mp hpart).2.2 last hm last (by simp) rfl) hmem with
        ⟨⟨y, hy, hfit⟩, -⟩ | ⟨-, stop, hstop, hnext, hwalk⟩
      · rw [hsizes y (hin y (by simp [hy]))] at hfit
        exact absurd hfit (hsmall y (hin y (by simp [hy])))
      · have hroom : k'.heap_break + growth n < 0x100000000 := by
          have := hinv.window.break_high
          omega
        have hend : k'.base :: (l' ++ [w]) = (pre ++ k.free_headers_head :: post') ++ [last, w] := by
          rw [hnew]
          simp
        obtain ⟨N, res, hres, hextent, hgives⟩ := malloc_walk_again map_page hn hinv hroom hhead hend
          hlastsmall hgrow.fits stop
        refine ⟨N + post'.length, res, _, fun fuel hfuel => ?_, Or.inr ⟨htwice, rfl, hextent, hgives⟩⟩
        obtain ⟨m, rfl⟩ : ∃ m, fuel = m + post'.length := ⟨fuel - post'.length, by omega⟩
        rw [hwalk, hres m (by omega)]
  · -- The new memory was joined to the last node of the old ring, which is the head now.
    have hhead : k'.free_headers_head = w := by
      rw [← List.cons_append] at hlast
      exact List.singleton_inj.mp (List.append_inj_right' hlast rfl)
    have hsame : k'.base :: (l' ++ [w]) = pre ++ k.free_headers_head :: post := by
      rw [hbase]
      exact hsplit
    have hmem : k.free_headers_head ∈ k'.base :: (l' ++ [w]) := by
      rw [hsame]
      simp
    have hnot : ¬ GrowsTwice k := by
      intro hc
      apply hc.2 w (hring.onRing.mpr (by simp))
      rw [endOf_eq hring.window hring.layout (by simp)]
      exact htouch
    obtain ⟨ys, hpath, hys, hsub, -⟩ := loop_path hloop (hinv.sorted.imp fun hlt => Nat.ne_of_lt hlt)
      (loop_next_mem hloop hmem) (show w ∈ k'.base :: (l' ++ [w]) by simp)
    have hysmall : ∀ y ∈ ys, ¬ n ≤ k'.size y := by
      intro y hy
      have hm := hsub y hy
      rw [hbase, ← List.cons_append] at hm
      rcases List.mem_append.mp hm with hm | hm
      · rw [hsizes y hm]
        exact hsmall y (by rw [← List.cons_append]; exact List.mem_append_left _ hm)
      · rw [List.mem_singleton.mp hm] at hy
        exact absurd hy hys
    obtain ⟨N, res, hres, hgives, hextent, hend⟩ := malloc_walk_to_fit map_page hn ys
      hinv hpath (by rw [hhead]; exact hys) hmem hysmall hgrow.fits
    have hreach := hgrow.reach
    exact ⟨N, res, [], hres, Or.inl ⟨hnot, rfl, hgives, hextent, by omega⟩⟩

/-- How a call of malloc for `n` headers ends, when all blocks together have `sum` bytes; `log`
are its growths. -/
inductive Malloced (map_page : σ → Nat → σ × Bool) (k : kernel_heap_t σ) (n : Nat)
    (live : List Nat) (sum : Nat) (res : kernel_heap_t σ × Nat) (log : List Bool) : Prop
  | fits (b : Nat) (on_ring : OnRing k b) (fit : n ≤ k.size b) (no_log : log = [])
      (gives : Gives k live n sum res) (extent : res.1.extent = k.extent)
  | refused (small : ∀ b, OnRing k b → ¬ n ≤ k.size b)
      (grows : (grow_pages map_page n k.extent).2 = false) (one : log = [false])
      (result : res = ({ k with pages := (grow_pages map_page n k.extent).1.1 }, 0))
      (refuses : Refuses k live sum res)
  | once (small : ∀ b, OnRing k b → ¬ n ≤ k.size b)
      (grows : (grow_pages map_page n k.extent).2 = true) (one : log = [true])
      (again : ¬ GrowsTwice k) (extent : res.1.extent = (grow_pages map_page n k.extent).1)
      (reach : k.heap_break + 8 < res.2 + 8 * n)
      (gives : Gives k live n (sum + kernel_heap_growth_bytes n) res)
  | twice (small : ∀ b, OnRing k b → ¬ n ≤ k.size b)
      (grows : (grow_pages map_page n k.extent).2 = true) (again : GrowsTwice k)
      (two : log = [true, (grow_pages map_page n (grow_pages map_page n k.extent).1).2])
      (extent : res.1.extent = (grow_pages map_page n (grow_pages map_page n k.extent).1).1)
      (gives : (grow_pages map_page n (grow_pages map_page n k.extent).1).2 = true →
        Gives k live n (sum + kernel_heap_growth_bytes n + kernel_heap_growth_bytes n) res)
      (refuses : (grow_pages map_page n (grow_pages map_page n k.extent).1).2 = false →
        Refuses k live (sum + kernel_heap_growth_bytes n) res)

/-- A call gives a block where the growth it may need is served. -/
theorem Malloced.gives_block {k : kernel_heap_t σ} {n sum : Nat} {live : List Nat}
    {res : kernel_heap_t σ × Nat} {log : List Bool} (h : Malloced map_page k n live sum res log)
    (hgrow : (grow_pages map_page n k.extent).2 = true) (hnot : ¬ GrowsTwice k) :
    ∃ sum', Gives k live n sum' res := by
  cases h with
  | fits b on_ring fit no_log gives extent => exact ⟨_, gives⟩
  | refused small grows one result refuses => exact absurd (hgrow.symm.trans grows) (by decide)
  | once small grows one again extent reach gives => exact ⟨_, gives⟩
  | twice small grows again two extent gives refuses => exact absurd again hnot

/-- A growth that gives memory is no larger than the window. -/
theorem grow_pages_room {n : Nat} {s : σ × Nat} (h : (grow_pages map_page n s).2 = true) :
    s.2 + growth n ≤ 0xF7FFF000 := by
  unfold grow_pages at h
  split at h
  · cases h
  · omega

/-- A call of malloc ends in one of these ways. The growth must not wrap around, where there is
one. -/
theorem malloc_ends (map_page : σ → Nat → σ × Bool) {k : kernel_heap_t σ} {free live : List Nat}
    {n : Nat} (h : Inv k free live)
    (hn : 0 < n)
    (hroom : (∀ b, OnRing k b → ¬ n ≤ k.size b) → k.heap_break + growth n < 0x100000000) :
    ∃ N res log, (∀ fuel, N ≤ fuel → kernel_heap_malloc_trace map_page n fuel k
        k.free_headers_head (k.next k.free_headers_head) = some (res, log)) ∧
      Malloced map_page k n live (total k.bytes (free ++ live)) res log := by
  have hnd : (k.base :: free).Nodup := h.sorted.imp (fun hlt => Nat.ne_of_lt hlt)
  obtain ⟨pre, post, hsplit⟩ := List.append_of_mem h.head_mem
  have hpath := loop_rotate h.ring hsplit
  have hsub : ∀ y ∈ post ++ pre, y ∈ k.base :: free := by
    intro y hy
    rw [hsplit]
    simp only [List.mem_append, List.mem_cons] at hy ⊢
    tauto
  have hys : k.free_headers_head ∉ post ++ pre := by
    rw [hsplit] at hnd
    have hparts := List.nodup_append.mp hnd
    intro hm
    rcases List.mem_append.mp hm with hm | hm
    · exact (List.nodup_cons.mp hparts.2.1).1 hm
    · exact hparts.2.2 _ hm _ List.mem_cons_self rfl
  rcases malloc_walk_part map_page hn (post ++ pre) h hpath hys h.head_mem with
    ⟨⟨y, hy, hfit⟩, N, res, hres, hgives, hextent⟩ | ⟨hsmall, last, hlast, hnext, hwalk⟩
  · exact ⟨N, res, [], hres, .fits y (h.onRing.mpr (hsub y hy)) hfit rfl hgives hextent⟩
  · by_cases hfit : n ≤ k.size k.free_headers_head
    · obtain ⟨res, hres, hgives, hextent, -⟩ := malloc_walk_fits map_page h hn hlast
        hnext hfit
      refine ⟨(post ++ pre).length + 1, res, [], fun fuel hfuel => ?_,
        .fits _ (h.onRing.mpr h.head_mem) hfit rfl hgives hextent⟩
      obtain ⟨m, rfl⟩ : ∃ m, fuel = m + 1 + (post ++ pre).length :=
        ⟨fuel - (post ++ pre).length - 1, by omega⟩
      rw [hwalk, hres]
    · have hnone : ∀ b ∈ k.base :: free, ¬ n ≤ k.size b := by
        intro b hb
        rw [hsplit] at hb
        rcases List.mem_append.mp hb with hb | hb
        · exact hsmall b (by simp [hb])
        · rcases List.mem_cons.mp hb with rfl | hb
          · exact hfit
          · exact hsmall b (by simp [hb])
      have hring : ∀ b, OnRing k b → ¬ n ≤ k.size b := fun b hb => hnone b (h.onRing.mp hb)
      have hat : ∀ fuel, kernel_heap_malloc_trace map_page n (fuel + 1) k last
          k.free_headers_head = (match kernel_heap_allocate_more_headers map_page fuel k n with
            | none => none
            | some (k1, headers) =>
              if headers = 0 then some ((k1, 0), [false])
              else (kernel_heap_malloc_trace map_page n fuel k1 k.free_headers_head
                (k1.next k.free_headers_head)).map fun r => (r.1, true :: r.2)) := by
        intro fuel
        rw [kernel_heap_malloc_trace, if_neg hfit, if_pos rfl]
      rcases kernel_heap_allocate_more_headers_spec map_page h (hroom hring) with
        ⟨hfail, -, hmore⟩ | ⟨hdone, k', l', w, hextent, hgrow, hne, hmore⟩
      · refine ⟨(post ++ pre).length + 1, _, [false], fun fuel hfuel => ?_,
          .refused hring hfail rfl rfl (h.refuses _)⟩
        obtain ⟨m, rfl⟩ : ∃ m, fuel = m + 1 + (post ++ pre).length :=
          ⟨fuel - (post ++ pre).length - 1, by omega⟩
        rw [hwalk, hat, hmore m]
        rfl
      · have hbound := grow_pages_room hdone
        have hlow := h.window.break_low
        have hgn : growth n ≤ 0x08000000 := by
          unfold kernel_heap_t.extent at hbound
          omega
        obtain ⟨N, res, log, hres, hcase⟩ := malloc_walk_regrown map_page hn hgrow h
          hgn hnone
        refine ⟨N + free.length + 2 + (post ++ pre).length, res, true :: log, fun fuel hfuel => ?_,
          ?_⟩
        · obtain ⟨m, rfl⟩ : ∃ m, fuel = m + 1 + (post ++ pre).length :=
            ⟨fuel - (post ++ pre).length - 1, by omega⟩
          rw [hwalk, hat, hmore m (by omega)]
          simp only [hne, if_false, hres m (by omega), Option.map_some]
        · rw [hgrow.total] at hcase
          rcases hcase with ⟨hnot, rfl, hgives, hsame, hreach⟩ | ⟨htwice, rfl, hsame, hgives⟩
          · exact .once hring hdone rfl hnot (hsame.trans hextent) hreach
              (hgives.trans hgrow.base hgrow.kept)
          · rw [hextent] at hsame hgives
            refine .twice hring hdone htwice (by rw [hextent]) hsame (fun hyes => ?_) fun hno => ?_
            · rw [if_pos hyes] at hgives
              exact hgives.trans hgrow.base hgrow.kept
            · rw [if_neg (by rw [hno]; decide)] at hgives
              exact hgives.trans hgrow.base hgrow.kept

/-- Whatever happened on the way, malloc gave a block of `n` headers or `NULL`. -/
theorem Malloced.outcome {k : kernel_heap_t σ} {n sum : Nat} {live : List Nat}
    {res : kernel_heap_t σ × Nat} {log : List Bool}
    (h : Malloced map_page k n live sum res log) :
    (∃ sum', Refuses k live sum' res) ∨ ∃ sum', Gives k live n sum' res := by
  cases h with
  | fits b on_ring fit no_log gives extent => exact Or.inr ⟨_, gives⟩
  | refused small grows one result refuses => exact Or.inl ⟨_, refuses⟩
  | once small grows one again extent reach gives => exact Or.inr ⟨_, gives⟩
  | twice small grows again two extent gives refuses =>
    cases hsecond : (grow_pages map_page n (grow_pages map_page n k.extent).1).2 with
    | true => exact Or.inr ⟨_, gives hsecond⟩
    | false => exact Or.inl ⟨_, refuses hsecond⟩

/-- `kernel_heap_malloc` with its growths. -/
def kernel_heap_malloc_log (map_page : σ → Nat → σ × Bool) (fuel : Nat) (k : kernel_heap_t σ)
    (size : Nat) : Option ((kernel_heap_t σ × Nat) × List Bool) :=
  if size = 0 then some ((k, 0), [])
  else
    kernel_heap_malloc_trace map_page (kernel_heap_headers_for size) fuel k
      k.free_headers_head (k.next k.free_headers_head)

theorem malloc_log_fst (fuel : Nat) (k : kernel_heap_t σ) (size : Nat) :
    kernel_heap_malloc map_page fuel k size =
      (kernel_heap_malloc_log map_page fuel k size).map Prod.fst := by
  unfold kernel_heap_malloc kernel_heap_malloc_log
  split
  · rfl
  · exact malloc_trace_walk _ _ _ _ _

theorem ends_of_log {k : kernel_heap_t σ} {size : Nat} {res : kernel_heap_t σ × Nat}
    {log : List Bool}
    (h : Ends (fun fuel => kernel_heap_malloc_log map_page fuel k size) (res, log)) :
    Ends (fun fuel => kernel_heap_malloc map_page fuel k size) res := by
  obtain ⟨N, hN⟩ := h
  refine ⟨N, fun fuel hfuel => ?_⟩
  have hlog : kernel_heap_malloc_log map_page fuel k size = some (res, log) := hN fuel hfuel
  show kernel_heap_malloc map_page fuel k size = some res
  rw [malloc_log_fst, hlog]
  rfl

theorem headers_for_pos (size : Nat) : 0 < kernel_heap_headers_for size := Nat.succ_pos _

theorem headers_for_eq {size : Nat} (h : size + 7 < 0x100000000) :
    kernel_heap_headers_for size = (size + 7) / 8 + 1 := by
  unfold kernel_heap_headers_for
  rw [u32_of_lt h]

/-- The growth for a request of at most 64 MiB does not wrap around. -/
theorem growth_no_wrap {k : kernel_heap_t σ} {free live : List Nat} (h : Inv k free live)
    {size : Nat} (h2 : size ≤ 0x04000000) :
    k.heap_break + growth (kernel_heap_headers_for size) < 0x100000000 := by
  have := h.window.break_high
  rw [headers_for_eq (by omega)]
  unfold growth
  omega

theorem kernel_heap_malloc_spec (map_page : σ → Nat → σ × Bool) {k : kernel_heap_t σ}
    {free live : List Nat} {size : Nat}
    (h : Inv k free live) (h1 : 1 ≤ size)
    (hroom : (∀ b, OnRing k b → ¬ kernel_heap_headers_for size ≤ k.size b) →
      k.heap_break + growth (kernel_heap_headers_for size) < 0x100000000) :
    ∃ res log, Ends (fun fuel => kernel_heap_malloc_log map_page fuel k size) (res, log) ∧
      Malloced map_page k (kernel_heap_headers_for size) live (total k.bytes (free ++ live))
        res log := by
  obtain ⟨N, res, log, hres, hcase⟩ :=
    malloc_ends map_page h (headers_for_pos size) hroom
  refine ⟨res, log, ⟨N, fun fuel hfuel => ?_⟩, hcase⟩
  show kernel_heap_malloc_log map_page fuel k size = some (res, log)
  unfold kernel_heap_malloc_log
  rw [if_neg (by omega)]
  exact hres fuel hfuel

end growth

end alura_os.kernel_heap
