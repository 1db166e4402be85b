import PacketLayers.Json.Codec
import PacketLayers.Report.Basic

namespace PacketLayers.Report

open Json

def toolCodec : Codec ToolInfo :=
  .record (.required "name" .string (.required "version" .string .empty))
    (fun t => (t.name, t.version, ()))
    (fun (name, version, ()) => ⟨name, version⟩)

def inputCodec : Codec InputInfo :=
  .record (.required "path" .string (.required "bytes" .word64 .empty))
    (fun i => (i.path, i.bytes, ()))
    (fun (path, bytes, ()) => ⟨path, bytes⟩)

def summaryCodec : Codec CaptureSummary :=
  .record
    (.required "packets_total" .word64
      (.optional "time_start" .string (.optional "time_end" .string .empty)))
    (fun s => (s.packetsTotal, s.timeStart, s.timeEnd, ()))
    (fun (packetsTotal, timeStart, timeEnd, ()) => ⟨packetsTotal, timeStart, timeEnd⟩)

def layerCodec : Codec LayerSummary :=
  .record (.required "layer" .string (.required "frames" .word64 .empty))
    (fun l => (l.layer, l.frames, ()))
    (fun (layer, frames, ()) => ⟨layer, frames⟩)

def ethertypeCodec : Codec EthertypeSummary :=
  .record (.required "ethertype" .word16 (.required "frames" .word64 .empty))
    (fun e => (e.ethertype, e.frames, ()))
    (fun (ethertype, frames, ()) => ⟨ethertype, frames⟩)

def codec : Codec Report :=
  .record
    (.required "report_version" .word32
      (.required "tool" toolCodec
        (.required "generated_at" .string
          (.required "input" inputCodec
            (.optional "capture_summary" summaryCodec
              (.required "layers" layerCodec.list
                (.required "ethertypes" ethertypeCodec.list
                  (.required "unsupported_linktypes" .word64 .empty))))))))
    (fun r => (r.reportVersion, r.tool, r.generatedAt, r.input, r.captureSummary, r.layers,
      r.ethertypes, r.unsupportedLinkTypes, ()))
    (fun (reportVersion, tool, generatedAt, input, captureSummary, layers, ethertypes,
        unsupportedLinkTypes, ()) =>
      ⟨reportVersion, tool, generatedAt, input, captureSummary, layers, ethertypes,
        unsupportedLinkTypes⟩)

end PacketLayers.Report
