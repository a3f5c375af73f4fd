import Vsc.Lib.Segments

/-! # Devices that keep values

A device keeps a value at each of its places, and its requests carry buffers: a write takes its
values out of a buffer, a read puts into one what the places hold.

* **`Device.serve`** — what a request does;
* **`Device.serveAll_read_back`** — what a write took out of its buffer, a later read puts into its
  own, when the places were not written in between;
* **`store_comp_injective`**, **`map_store_zip`** — a device that lies in a memory, and a buffer
  that does. -/

namespace Vsc.Lib

variable {ι κ V α : Type*}

/-- A device with the buffers of its requests. -/
structure Device (ι κ V : Type*) where
  /-- What the places hold. -/
  disk : ι → V
  /-- The buffers. -/
  buf : κ → List V

/-- A request on a list of places. -/
inductive Request (ι κ : Type*)
  /-- The places take over what the buffer `c` holds. -/
  | write (c : κ) (ps : List ι)
  /-- The buffer `c` takes over what the places hold. -/
  | read (c : κ) (ps : List ι)
  deriving DecidableEq

namespace Device

variable [DecidableEq ι] [DecidableEq κ]

/-- **What a request does**, for as many places as the buffer has values. -/
def serve (D : Device ι κ V) : Request ι κ → Device ι κ V
  | .write c ps => { D with disk := store D.disk (ps.zip (D.buf c)) }
  | .read c ps => { D with
      buf := Function.update D.buf c
        ((ps.take (D.buf c).length).map D.disk ++ (D.buf c).drop ps.length) }

/-- The requests, one behind the other. -/
def serveAll (D : Device ι κ V) (rs : List (Request ι κ)) : Device ι κ V := rs.foldl serve D

variable {D : Device ι κ V} {r : Request ι κ} {rs : List (Request ι κ)}

theorem serveAll_append (rs' : List (Request ι κ)) :
    D.serveAll (rs ++ rs') = (D.serveAll rs).serveAll rs' := List.foldl_append ..

/-- A buffer keeps its length. -/
theorem length_serve (c : κ) : ((D.serve r).buf c).length = (D.buf c).length := by
  cases r with
  | write => rfl
  | read c' ps =>
      show (Function.update D.buf c' _ c).length = _
      by_cases hc : c = c'
      · subst hc
        rw [Function.update_self, List.length_append, List.length_map, List.length_take,
          List.length_drop]
        omega
      · rw [Function.update_of_ne hc]

theorem length_serveAll (c : κ) : ((D.serveAll rs).buf c).length = (D.buf c).length := by
  induction rs generalizing D with
  | nil => rfl
  | cons r rs ih => exact ih.trans (length_serve c)

/-- A buffer is filled by its own reads only. -/
theorem serveAll_buf {c : κ} (h : ∀ ps, Request.read c ps ∉ rs) :
    (D.serveAll rs).buf c = D.buf c := by
  induction rs generalizing D with
  | nil => rfl
  | cons r rs ih =>
      refine (ih fun ps hps => h ps (List.mem_cons_of_mem _ hps)).trans ?_
      cases r with
      | write => rfl
      | read c' ps =>
          refine Function.update_of_ne (fun heq => h ps ?_) ..
          rw [heq]
          exact List.mem_cons_self ..

/-- A place is changed by the writes on it only. -/
theorem serveAll_disk {i : ι} (h : ∀ c ps, Request.write c ps ∈ rs → i ∉ ps) :
    (D.serveAll rs).disk i = D.disk i := by
  induction rs generalizing D with
  | nil => rfl
  | cons r rs ih =>
      refine (ih fun c ps hps => h c ps (List.mem_cons_of_mem _ hps)).trans ?_
      cases r with
      | read => rfl
      | write c ps =>
          refine store_of_notMem fun hi => h c ps (List.mem_cons_self ..) ?_
          rw [map_fst_zip] at hi
          exact List.mem_of_mem_take hi

/-- **What was written is read back**: a write of the buffer `c`, then requests that write none of
its places, then a read of these places into `c'`, which is not read again. -/
theorem serveAll_read_back {pre mid post : List (Request ι κ)} {c c' : κ} {ps : List ι}
    (hps : ps.Nodup) (hlen : (D.buf c').length = (D.buf c).length)
    (hfit : (D.buf c).length ≤ ps.length) (hpre : ∀ qs, Request.read c qs ∉ pre)
    (hmid : ∀ d qs, Request.write d qs ∈ mid → ps.Disjoint qs)
    (hpost : ∀ qs, Request.read c' qs ∉ post) :
    (D.serveAll (pre ++ .write c ps :: (mid ++ .read c' ps :: post))).buf c' = D.buf c := by
  obtain ⟨D₁, hD₁⟩ : ∃ D₁, D₁ = D.serveAll pre := ⟨_, rfl⟩
  obtain ⟨D₂, hD₂⟩ : ∃ D₂, D₂ = (D₁.serve (.write c ps)).serveAll mid := ⟨_, rfl⟩
  have hc : D₁.buf c = D.buf c := hD₁ ▸ serveAll_buf hpre
  have hbuf : (D₂.buf c').length = (D.buf c).length := by
    rw [hD₂, length_serveAll, length_serve, hD₁, length_serveAll, hlen]
  -- the places hold the values of the write until they are read
  have hdisk : (ps.take (D.buf c).length).map D₂.disk = D.buf c := by
    refine List.ext_getElem ?_ fun k hk hk' => ?_
    · rw [List.length_map, List.length_take]
      omega
    · have hkps : k < ps.length := by omega
      have hkeep : D₂.disk ps[k] = (D₁.serve (.write c ps)).disk ps[k] := by
        rw [hD₂]
        exact serveAll_disk fun d qs hw hmem => hmid d qs hw (List.getElem_mem _) hmem
      rw [List.getElem_map, List.getElem_take, hkeep]
      refine (store_of_mem (m := D₁.disk) (w := (ps[k], (D.buf c)[k])) ?_ ?_)
      · rw [hc]
        refine List.mem_iff_getElem.mpr ⟨k, ?_, List.getElem_zip ..⟩
        rw [List.length_zip]
        omega
      · rw [map_fst_zip]
        exact hps.sublist (List.take_sublist _ _)
  have hsplit : D.serveAll (pre ++ .write c ps :: (mid ++ .read c' ps :: post))
      = (D₂.serve (.read c' ps)).serveAll post := by
    have hcons : ∀ (E : Device ι κ V) r rs, E.serveAll (r :: rs) = (E.serve r).serveAll rs :=
      fun _ _ _ => rfl
    rw [serveAll_append, ← hD₁, hcons, serveAll_append, ← hD₂, hcons]
  rw [hsplit, serveAll_buf hpost]
  show Function.update D₂.buf c' _ c' = _
  rw [Function.update_self, hbuf, hdisk, List.drop_eq_nil_of_le (by omega), List.append_nil]

end Device

/-! ## Devices and buffers that lie in a memory -/

/-- A transfer whose values are looked up on the way. -/
theorem map_zip_snd {β : Type*} (f : β → V) (l : List α) (r : List β) :
    (l.zip r).map (fun p => (p.1, f p.2)) = l.zip (r.map f) := by
  rw [List.zip_map_right]
  rfl

variable [DecidableEq α]

/-- Stores to the places of a device, seen from the device. -/
theorem store_comp_injective [DecidableEq ι] {place : ι → α} (hplace : Function.Injective place)
    (m : α → V) (ps : List ι) (vs : List V) :
    store m ((ps.map place).zip vs) ∘ place = store (m ∘ place) (ps.zip vs) := by
  induction ps generalizing m vs with
  | nil => rfl
  | cons p ps ih =>
      cases vs with
      | nil => rfl
      | cons v vs =>
          rw [List.map_cons, List.zip_cons_cons, List.zip_cons_cons, store_cons, store_cons, ih,
            Function.update_comp_eq_of_injective _ hplace]

/-- **What a buffer holds behind stores to its cells**, in order. -/
theorem map_store_zip (m : α → V) {cs : List α} (hcs : cs.Nodup) (vs : List V) :
    cs.map (store m (cs.zip vs)) = vs.take cs.length ++ (cs.drop vs.length).map m := by
  induction cs generalizing m vs with
  | nil => simp
  | cons c cs ih =>
      obtain ⟨hc, hcs⟩ := List.nodup_cons.mp hcs
      cases vs with
      | nil => rfl
      | cons v vs =>
          have hhead : store (Function.update m c v) (cs.zip vs) c = v := by
            rw [store_of_notMem, Function.update_self]
            rw [map_fst_zip]
            exact fun hmem => hc (List.mem_of_mem_take hmem)
          have hrest : (cs.drop vs.length).map (Function.update m c v)
              = (cs.drop vs.length).map m :=
            List.map_congr_left fun a ha => Function.update_of_ne
              (fun heq : a = c => hc (heq ▸ List.mem_of_mem_drop ha)) ..
          have htail := ih (Function.update m c v) hcs vs
          rw [hrest] at htail
          rw [List.zip_cons_cons, store_cons, List.map_cons, hhead, htail]
          rfl

end Vsc.Lib
