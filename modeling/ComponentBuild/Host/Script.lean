namespace ComponentBuild

def hostScriptLines : List String := [
  "import \x7b createInterface \x7d from 'node:readline';",
  "import \x7b stdin, stdout \x7d from 'node:process';",
  "import \x7b createRequire \x7d from 'node:module';",
  "import \x7b pathToFileURL \x7d from 'node:url';",
  "",
  "const config = JSON.parse(process.argv[2] || '\x7b\x7d');",
  "const require = createRequire(pathToFileURL(process.cwd() + '/'));",
  "",
  "async function load(name) \x7b",
  "  const path = require.resolve(name);",
  "  return import(pathToFileURL(path).href);",
  "\x7d",
  "",
  "async function optional(name) \x7b",
  "  try \x7b",
  "    return await load(name);",
  "  \x7d catch \x7b",
  "    return null;",
  "  \x7d",
  "\x7d",
  "",
  "let svelte;",
  "try \x7b",
  "  svelte = await load('svelte/compiler');",
  "\x7d catch (err) \x7b",
  "  const message = err && err.message ? err.message : String(err);",
  "  console.error(\x60melte bun host failed to load svelte/compiler: $\x7bmessage\x7d\x60);",
  "  process.exit(2);",
  "\x7d",
  "",
  "const transformers = await optional('svelte-preprocess');",
  "const babel = await optional('@babel/core');",
  "const hmr = await optional('svelte-hmr');",
  "",
  "let postcssPlugins = null;",
  "async function loadPostcssPlugins() \x7b",
  "  if (postcssPlugins) return postcssPlugins;",
  "  postcssPlugins = [];",
  "  for (const name of config.postcssPlugins || []) \x7b",
  "    const mod = await load(name);",
  "    const plugin = mod.default || mod;",
  "    postcssPlugins.push(typeof plugin === 'function' ? plugin() : plugin);",
  "  \x7d",
  "  return postcssPlugins;",
  "\x7d",
  "",
  "function mapJson(map) \x7b",
  "  if (!map) return null;",
  "  return typeof map === 'string' ? map : JSON.stringify(map);",
  "\x7d",
  "",
  "function position(err) \x7b",
  "  if (err.start && typeof err.start.line === 'number') \x7b",
  "    return \x7b line: err.start.line, column: err.start.column || 0 \x7d;",
  "  \x7d",
  "  if (err.loc && typeof err.loc.line === 'number') \x7b",
  "    return \x7b line: err.loc.line, column: err.loc.column || 0 \x7d;",
  "  \x7d",
  "  if (typeof err.line === 'number') \x7b",
  "    return \x7b line: err.line, column: err.column || 0 \x7d;",
  "  \x7d",
  "  return null;",
  "\x7d",
  "",
  "async function preprocess(req) \x7b",
  "  const \x7b kind, lang \x7d = req.lang;",
  "  const factory = transformers && transformers[lang];",
  "  if (!factory) \x7b",
  "    throw new Error(\x60no $\x7blang\x7d transformer available (is svelte-preprocess installed?)\x60);",
  "  \x7d",
  "  const options = lang === 'postcss' ? \x7b plugins: await loadPostcssPlugins() \x7d : \x7b\x7d;",
  "  const group = factory(options);",
  "  const transform = kind === 'script' ? group.script : group.style;",
  "  const result = await transform(\x7b",
  "    content: req.content,",
  "    attributes: req.attributes,",
  "    filename: req.filename,",
  "  \x7d);",
  "  return \x7b",
  "    code: result.code,",
  "    map: mapJson(result.map),",
  "    dependencies: result.dependencies || [],",
  "  \x7d;",
  "\x7d",
  "",
  "function compile(req) \x7b",
  "  const options = req.options;",
  "  const result = svelte.compile(req.code, \x7b",
  "    filename: options.filename,",
  "    name: options.name,",
  "    dev: options.dev,",
  "    generate: options.target === 'server' ? 'ssr' : 'dom',",
  "    hydratable: options.hydratable,",
  "    css: options.css,",
  "  \x7d);",
  "  return \x7b code: result.js.code, map: mapJson(result.js.map) \x7d;",
  "\x7d",
  "",
  "let makeHot = null;",
  "function hot(req) \x7b",
  "  if (!hmr) \x7b",
  "    throw new Error('svelte-hmr is not installed');",
  "  \x7d",
  "  if (!makeHot) \x7b",
  "    makeHot = hmr.createMakeHot(\x7b walk: svelte.walk, meta: 'import.meta' \x7d);",
  "  \x7d",
  "  const code = makeHot(\x7b",
  "    id: req.options.filename,",
  "    compiledCode: req.code,",
  "    originalCode: req.source,",
  "    compileOptions: req.options,",
  "    hotOptions: \x7b injectCss: false \x7d,",
  "  \x7d);",
  "  return \x7b code \x7d;",
  "\x7d",
  "",
  "async function transpile(req) \x7b",
  "  if (!babel) \x7b",
  "    return \x7b code: req.code, map: null \x7d;",
  "  \x7d",
  "  const result = await babel.transformAsync(req.code, \x7b",
  "    filename: req.filename,",
  "    sourceMaps: true,",
  "  \x7d);",
  "  return \x7b code: result.code, map: mapJson(result.map) \x7d;",
  "\x7d",
  "",
  "const operations = \x7b preprocess, compile, hot, transpile \x7d;",
  "",
  "stdout.write(JSON.stringify(\x7b ready: true \x7d) + '\\n');",
  "",
  "const rl = createInterface(\x7b input: stdin, crlfDelay: Infinity \x7d);",
  "",
  "for await (const line of rl) \x7b",
  "  if (!line.trim()) continue;",
  "",
  "  let req;",
  "  try \x7b",
  "    req = JSON.parse(line);",
  "  \x7d catch (err) \x7b",
  "    const message = err && err.message ? err.message : String(err);",
  "    stdout.write(JSON.stringify(\x7b id: null, fatal: \x60invalid json: $\x7bmessage\x7d\x60 \x7d) + '\\n');",
  "    continue;",
  "  \x7d",
  "",
  "  const operation = operations[req.op];",
  "  if (!operation) \x7b",
  "    stdout.write(JSON.stringify(\x7b id: req.id, fatal: \x60unknown op: $\x7breq.op\x7d\x60 \x7d) + '\\n');",
  "    continue;",
  "  \x7d",
  "",
  "  try \x7b",
  "    const result = await operation(req);",
  "    stdout.write(JSON.stringify(\x7b id: req.id, result \x7d) + '\\n');",
  "  \x7d catch (err) \x7b",
  "    const message = err && err.message ? err.message : String(err);",
  "    const frame = err && (err.frame || err.codeFrame || null);",
  "    stdout.write(",
  "      JSON.stringify(\x7b id: req.id, error: \x7b message, start: err ? position(err) : null, frame \x7d \x7d) + '\\n'",
  "    );",
  "  \x7d",
  "\x7d"]

def hostScript : String := String.join (hostScriptLines.map (· ++ "\n"))

end ComponentBuild
