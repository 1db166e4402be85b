import PacketLayers.Frame.Basic

namespace PacketLayers.Sample

namespace Outer

def magic : Field := ⟨0, 1⟩
def next : Field := ⟨1, 1⟩
def bodyLength : Field := ⟨2, 2⟩

def format : Format where
  name := "outer"
  headerLength := 4
  valid h _ := magic.value h == 0xA5
  bounds h _ := ⟨4, 4 + bodyLength.value h⟩
  readings h := [
    ("magic", .number (magic.value h)),
    ("next", .number (next.value h)),
    ("body_len", .number (bodyLength.value h))]

end Outer

namespace Span

def tag : Field := ⟨0, 1⟩
def next : Field := ⟨1, 1⟩
def start : Field := ⟨2, 2⟩
def stop : Field := ⟨4, 2⟩

def format : Format where
  name := "span"
  headerLength := 6
  valid h _ := tag.value h != 0
  bounds h _ := ⟨start.value h, stop.value h⟩
  readings h := [
    ("tag", .number (tag.value h)),
    ("next", .number (next.value h)),
    ("start", .number (start.value h)),
    ("end", .number (stop.value h))]

def inSpan : Encapsulation := ⟨format, format, fun f => next.value f.header == 1⟩

end Span

namespace Inner

def kind : Field := ⟨0, 1⟩
def flags : Field := ⟨1, 1⟩

def format : Format where
  name := "inner"
  headerLength := 2
  valid h _ := kind.value h != 0
  readings h := [
    ("kind", .number (kind.value h)),
    ("flags", .number (flags.value h))]

def inOuter : Encapsulation := ⟨Outer.format, format, fun f => Outer.next.value f.header == 1⟩

def inSpan : Encapsulation := ⟨Span.format, format, fun f => Span.next.value f.header == 2⟩

end Inner

end PacketLayers.Sample
