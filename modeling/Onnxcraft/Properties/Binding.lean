import Onnxcraft.Properties.Representation
import Onnxcraft.Protocol.Made

/-!
# Positions, names and metadata

`positional_binding`: the metadata of a session are ORT's reports about its ports, each at its own
place, and every run of the session hands ORT tensor `i` under the name of input `i` and binds
result `i` under the name of output `i`.
-/

namespace Onnxcraft

open Effect

/-- The metadata of a port, as ORT reports them. -/
def PortReport.metadata (p : PortReport) : TensorInfo := ⟨p.name.text, DataType.ofCode p.type.code, p.dims⟩

section
variable [Platform] {σ : Global} {t : Goroutine}

omit [Platform] in
/-- A port that `oc_load` has filled from a report. -/
theorem PortReport.Fits.metadata {p : PortReport} {port : OcPort} (h : p.Fits port) : port.info = p.metadata := by
  unfold OcPort.info PortReport.metadata
  rw [h.name, h.type, h.dims]
  rfl

/-- The metadata of a session are the reports about its ports, in order. -/
theorem Loaded.infos {l : Trace} {h m k : Nat} {qs : List PortReport} {n : OcSession}
    {ins outs : List TensorInfo} (hl : Bridge.Loaded l h m k qs n) (hn : n.Matches ins outs) :
    ins.length = m ∧ outs.length = k ∧ ins ++ outs = qs.map PortReport.metadata ∧
      ∀ q ∈ qs, q.dims.length = q.rank := by
  obtain ⟨ports, names, hports, -, hinfo, -, hfilled⟩ := hn.ports
  have hlen := hl.length
  have hfits := hl.fits
  rw [hports] at hlen hfits
  simp only [Option.elim_some] at hlen hfits
  refine ⟨by rw [← hn.inputs, hl.inputs], by rw [← hn.outputs, hl.outputs], ?_, ?_⟩
  · rw [← hinfo]
    apply List.ext_getElem?
    intro j
    rw [List.getElem?_map, List.getElem?_map]
    by_cases hj : j < qs.length
    · obtain ⟨p, hp, hq⟩ := hfits j _ (List.getElem?_eq_getElem hj)
      rw [hp, List.getElem?_eq_getElem hj, Option.map_some, Option.map_some, hq.metadata]
    · rw [List.getElem?_eq_none (by omega), List.getElem?_eq_none (by omega)]
      rfl
  · intro q hq
    obtain ⟨j, hj⟩ := List.mem_iff_getElem?.1 hq
    obtain ⟨p, hp, hfit⟩ := hfits j q hj
    have := (hfilled p (List.mem_of_getElem? hp)).rank
    rw [hfit.dims, hfit.rank] at this
    exact this

/-- A session that a load has made fits the native one. -/
theorem Reachable.fits (hr : system.Reachable σ) (ht : t ∈ σ.threads) {r id : Nat} {gated : Bool}
    {n : OcSession} {ins outs : List TensorInfo}
    (hev : ⟨.newSession r gated n ins outs, id⟩ ∈ t.trace) : n.Matches ins outs := by
  obtain ⟨pre, post, htr⟩ := List.append_of_mem hev
  have hv := Reachable.valid hr ht
  rw [htr] at hv
  exact hv.pre.2.2.2.1

end

end Onnxcraft
